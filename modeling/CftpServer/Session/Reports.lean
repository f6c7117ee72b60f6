import CftpServer.Session.Calls
import CftpServer.Session.Confinement
import CftpServer.Session.StoredUpload

/-!
# What the replies report

MKD, RMD, DELE and STOR change what is in the file system, and their replies report it. DELE with `-r` only removes
entries, and nothing else changes any.

* `mkd_served`, `rmd_served`, `dele_served`, `stor_served`: a command has done what its reply reports, or nothing
* `step_reported`, `step_shut`: one event
* `files_as_reported`: what is there at any time is what was there at the start and what has been reported since
-/

namespace CftpServer

open CLib FileTree

/-- The reply of a command that changes entries, when it succeeds. -/
def Command.Action.success : Command.Action → Option Effect
  | .mkd => some (.reply 257 (ascii "Make directory successful"))
  | .rmd => some (.reply 250 (ascii "Remove directory successful"))
  | .dele => some (.reply 250 (ascii "Delete successful."))
  | .stor => some (.reply 150 (ascii "Read to receive"))
  | _ => none

/-- There is `k` at this place now, and the rest is as it was. -/
structure Becomes (l : List Name) (k : Option (Node Name)) (f f' : FileStore Name UInt8) : Prop where
  node : f'.tree.node l = k
  others : ∀ l', l' ≠ l → f'.tree.node l' = f.tree.node l' ∧ f'.number l' = f.number l'

section Becomes

variable {f : FileStore Name UInt8} {l : List Name}

theorem becomes_makeDir (hv : f.tree.Vacant l) : Becomes l (some .dir) f (f.makeDir l) :=
  ⟨Tree.node_insert_self hv, fun _ hne => ⟨Tree.node_insert_of_ne hne, rfl⟩⟩

theorem becomes_create (hv : f.tree.Vacant l) : Becomes l (some .file) f (f.create l) := by
  obtain ⟨htree, hnumber, -, -⟩ := FileStore.create_of_vacant hv
  refine ⟨by rw [htree, Tree.node_insert_self hv], fun l' hne => ⟨?_, ?_⟩⟩
  · rw [htree, Tree.node_insert_of_ne hne]
  · rw [hnumber, Function.update_of_ne hne]

theorem becomes_write (hfile : f.tree.node l = some .file) (i : Nat) (c : Bytes) :
    Becomes l (some .file) f (f.write i c) := ⟨hfile, fun _ _ => ⟨rfl, rfl⟩⟩

theorem becomes_remove (hl : l ≠ []) (hnames : f.tree.names l = []) : Becomes l none f (f.remove l) :=
  ⟨Tree.node_remove_self hl hnames, fun _ hne => ⟨Tree.node_remove_of_ne hne, rfl⟩⟩

end Becomes

/-! ## Files that are not written -/

namespace System

/-- The file `i` has the content `c`, and is not open to be written. -/
structure Shut (i : Nat) (c : Bytes) (w : System) : Prop where
  contents : w.files.contents i = c
  handles : ∀ fd pos, w.handles fd ≠ some (.writing i pos)
  opening : ∀ pos, w.opening ≠ some (.writing i pos)

variable {env : Env Moment} {w : System} {p : Proc} {i : Nat} {c path : Bytes} {e : Effect}

/-- Only `open` for writing opens a file to be written. -/
theorem upshot_opening {call : Call} (hcall : ∀ path, call ≠ .openWrite path) (pos : Nat) :
    (w.upshot p call).opening ≠ some (.writing i pos) := by
  cases call with
  | openWrite path => exact absurd rfl (hcall path)
  | openRead path =>
    simp only [upshot, reads]
    cases w.fileAt p path <;> cases w.goesTo p path <;> simp
  | opendir path =>
    simp only [upshot]
    cases w.goesTo p path <;> simp
  | _ => simp [upshot]

theorem after_call_handles (env : Env Moment) (w : System) (p : Proc) (call : Call) :
    (System.after env w p (.call call)).handles = w.handles := by
  cases hpermits : permits env w.moment p call with
  | false => rw [after_refused hpermits]
  | true =>
    rw [after_permitted hpermits]
    rfl

theorem Shut.after (h : Shut i c w) (env : Env Moment) (p : Proc) (he : ∀ path, e ≠ .call (.openWrite path)) :
    Shut i c (System.after env w p e) := by
  have hupdate : ∀ {fd : Int} {new : Option Handle}, (∀ pos, new ≠ some (.writing i pos)) →
      ∀ fd' pos, Function.update w.handles fd new fd' ≠ some (.writing i pos) := by
    intro fd new hnew fd' pos
    rw [Function.update_apply]
    split
    · exact hnew pos
    · exact h.handles fd' pos
  cases e with
  | call call =>
    have hcall : ∀ path, call ≠ .openWrite path := fun path heq => he path (congrArg Effect.call heq)
    have hkeeps : Effect.KeepsFiles (.call call) := by
      cases call with
      | openWrite path => exact hcall path rfl
      | _ => trivial
    refine ⟨(congrFun (after_contents env w p hkeeps) i).trans h.contents, ?_, fun pos => ?_⟩
    · rw [after_call_handles]
      exact h.handles
    cases hpermits : permits env w.moment p call with
    | false =>
      rw [after_refused hpermits]
      exact (Option.some_ne_none _).symm
    | true =>
      rw [after_permitted hpermits]
      exact upshot_opening hcall pos
  | opened fd => exact ⟨h.contents, hupdate h.opening, fun _ => (Option.some_ne_none _).symm⟩
  | closed fd => exact ⟨h.contents, hupdate fun _ => (Option.some_ne_none _).symm, h.opening⟩
  | store b tls fd bytes =>
    simp only [System.after, act, store]
    split
    · rename_i j pos hfd
      have hne : j ≠ i := by
        rintro rfl
        exact h.handles fd pos hfd
      refine ⟨?_, hupdate fun pos' heq => hne ?_, h.opening⟩
      · rw [← h.contents]
        exact Function.update_of_ne hne.symm ..
      · exact (Handle.writing.inj (Option.some.inj heq)).1
    · exact ⟨h.contents, h.handles, h.opening⟩
  | _ => exact ⟨h.contents, h.handles, h.opening⟩

/-- Another file is opened to be written. -/
theorem Shut.openWrite (h : Shut i c w) (hopen : (onStore env).openWrite w p path = true)
    (hne : (System.after env w p (.call (.openWrite path))).fileNumber p path ≠ some i) :
    Shut i c (System.after env w p (.call (.openWrite path))) := by
  obtain ⟨l, hat, hopening, hfiles⟩ := openWrite_opened hopen
  have hnumber : (System.after env w p (.call (.openWrite path))).files.number l ≠ i := by
    intro heq
    rw [fileNumber, hat, Option.map_some, heq] at hne
    exact hne rfl
  refine ⟨?_, by rw [after_call_handles]; exact h.handles, fun pos heq => ?_⟩
  · rcases hfiles with ⟨-, hfiles⟩ | ⟨hv, hfiles⟩
    · rw [hfiles] at hnumber ⊢
      rw [FileStore.write_number] at hnumber
      rw [FileStore.write_contents, Function.update_of_ne (Ne.symm hnumber), h.contents]
    · obtain ⟨-, hnew, hcontents, -⟩ := FileStore.create_of_vacant hv
      rw [hfiles] at hnumber ⊢
      rw [hnew, Function.update_self] at hnumber
      rw [hcontents, Function.update_of_ne (Ne.symm hnumber), h.contents]
  · rw [hopening] at heq
    exact hnumber (Handle.writing.inj (Option.some.inj heq)).1

theorem Shut.openWrite_refused (h : Shut i c w) (hopen : (onStore env).openWrite w p path = false) :
    Shut i c (System.after env w p (.call (.openWrite path))) := by
  obtain ⟨hfiles, hopening⟩ := System.openWrite_refused hopen
  refine ⟨by rw [hfiles, h.contents], by rw [after_call_handles]; exact h.handles, fun pos => ?_⟩
  rw [hopening]
  exact (Option.some_ne_none _).symm

end System

namespace Session

open Command Runs

variable {env : Env Moment} {s s' : Session System} {a : Action} {cmd : CftpCommand} {e : Event}

/-! ## Reports -/

/-- What the success of a command reports: that there is this now at the place its path leads to, or led to. -/
def reported (a : Action) (args : List Bytes) (p : Proc) (w w' : System) : Option (List Name × Option (Node Name)) :=
  match a, args with
  | .mkd, [path] => (w'.directoryAt p path).map fun l => (l, some .dir)
  | .stor, [path] => (w'.fileAt p path).map fun l => (l, some .file)
  | .rmd, [path] => (w.rmdirs p path).map fun l => (l, none)
  | .dele, args => ((parseDeleParams args).filter fun params => !params.2.1).bind fun params =>
      (w.unlinks p params.1).map fun l => (l, none)
  | _, _ => none

variable (env) in
/-- The command that an event completes, if it changes entries and is answered by its success. -/
def succeeded (e : Event) (s : Session System) : Option Action :=
  match e with
  | .controlRead chunk =>
    (handlerOf s chunk).filter fun a => a.success.any fun r => r ∈ newEffects s (step (onStore env) e s)
  | _ => none

variable (env) in
/-- What the reply to an event reports. -/
def report (e : Event) (s : Session System) : Option (List Name × Option (Node Name)) :=
  match e with
  | .controlRead chunk =>
    (succeeded env e s).bind fun a => reported a (commandOf s chunk).args s.proc s.os (step (onStore env) e s).os
  | _ => none

variable (env) in
/-- What it reports of one place. -/
def reportAt (l : List Name) (e : Event) (s : Session System) : Option (Option (Node Name)) :=
  (report env e s).bind fun r => if r.1 = l then some r.2 else none

variable (env) in
/-- The files that are named to be written. -/
def storFiles (e : Event) (s : Session System) : List Nat := (storFile env e s).toList

/-- No DELE with `-r`. -/
def PlainDele (e : Event) (s : Session System) : Prop := ∀ chunk target force, e = .controlRead chunk →
  handlerOf s chunk = some .dele → parseDeleParams (commandOf s chunk).args ≠ some (target, true, force)

/-! ## What each command does -/

/-- The command has succeeded and what that reports is there, or it has not and nothing has changed. -/
def Served (a : Action) (args : List Bytes) (s s' : Session System) : Prop :=
  ∃ d, s'.log = s.log ++ d ∧
    (((∃ r ∈ d, a.success = some r) ∧ ∃ l k, reported a args s.proc s.os s'.os = some (l, k) ∧
        Becomes l k s.os.files s'.os.files) ∨
      ((∀ r ∈ d, a.success ≠ some r) ∧ s'.os.files.entries = s.os.files.entries))

/-- A command that only replies. -/
theorem Served.refused {d : List Effect} {args : List Bytes} (hlog : s'.log = s.log ++ d)
    (hd : ∀ r ∈ d, a.success ≠ some r) (hfiles : s'.os.files = s.os.files) : Served a args s s' :=
  ⟨d, hlog, .inr ⟨hd, congrArg FileStore.entries hfiles⟩⟩

/-- A command that does what its reply says. -/
theorem Served.success {d : List Effect} {args : List Bytes} {r : Effect} {l : List Name} {k : Option (Node Name)}
    {f : FileStore Name UInt8} (hlog : s'.log = s.log ++ d) (hr : a.success = some r) (hd : r ∈ d)
    (hreported : reported a args s.proc s.os s'.os = some (l, k)) (hfiles : s'.os.files = f)
    (h : Becomes l k s.os.files f) : Served a args s s' :=
  ⟨d, hlog, .inl ⟨⟨r, hd, hr⟩, l, k, hreported, hfiles ▸ h⟩⟩

variable (env s) in
/-- A `stat` leaves everything as it is. -/
theorem stat_os (path : Bytes) : (sysStat (onStore env) path s).2.os =
    { s.os with opening := none, ticks := s.os.ticks + 1 } := by
  simp only [sysStat, call, emit]
  cases hpermits : permits env s.os.moment s.proc (.stat path) with
  | false => exact System.after_refused hpermits
  | true => exact System.after_permitted hpermits

section Commands

variable (env s)

theorem mkd_served (cmd : CftpCommand) : Served .mkd cmd.args s (cftpMkdAuthenticatedAction (onStore env) cmd s) := by
  unfold cftpMkdAuthenticatedAction withArg
  split
  · rename_i path hargs
    rw [hargs]
    have hfiles : (sysStat (onStore env) path s).2.os.files = s.os.files := by rw [stat_os]
    dsimp only
    split
    · exact .refused (d := [.reply 553 (ascii "File name not allowed")]) rfl (by decide) rfl
    · split
      · exact .refused (d := [.call (.stat path), .reply 550 (ascii "Directory already exists")])
          (by simp [sendControlMessage, sysStat, call, emit]) (by simp [Action.success]) hfiles
      · split
        · rename_i hmade
          obtain ⟨l, hv, hmkdir, hdir⟩ := System.mkdir_made (w := (sysStat (onStore env) path s).2.os) hmade
          rw [hfiles] at hv hmkdir
          exact .success
            (d := [.call (.stat path), .call (.mkdir path), .reply 257 (ascii "Make directory successful")])
            (by simp [sendControlMessage, sysStat, sysMkdir, call, emit]) rfl (by simp)
            (congrArg (Option.map _) hdir) hmkdir (becomes_makeDir hv)
        · rename_i hmade
          exact .refused
            (d := [.call (.stat path), .call (.mkdir path), .reply 550 (ascii "Failed to create directory.")])
            (by simp [sendControlMessage, sysStat, sysMkdir, call, emit]) (by simp [Action.success])
            ((System.mkdir_refused (Bool.not_eq_true _ ▸ hmade)).trans hfiles)
  · exact .refused (d := [.reply 501 (ascii "Invalid syntax in parameters")]) rfl (by decide) rfl

theorem rmd_served (cmd : CftpCommand) : Served .rmd cmd.args s (cftpRmdAuthenticatedAction (onStore env) cmd s) := by
  unfold cftpRmdAuthenticatedAction withArg
  split
  · rename_i path hargs
    rw [hargs]
    have hos := stat_os env s path
    have hfiles : (sysStat (onStore env) path s).2.os.files = s.os.files := by rw [hos]
    dsimp only
    split
    · exact .refused (d := [.reply 553 (ascii "File name not allowed")]) rfl (by decide) rfl
    · split
      · exact .refused (d := [.call (.stat path), .reply 550 (ascii "Directory not found")])
          (by simp [sendControlMessage, sysStat, call, emit]) (by simp [Action.success]) hfiles
      · split
        · rename_i hremoved
          obtain ⟨l, hl, hrmdir, hne, hnames⟩ :=
            System.rmdir_removed (w := (sysStat (onStore env) path s).2.os) hremoved
          rw [hfiles] at hrmdir hnames
          have hplace : s.os.rmdirs s.proc path = some l := by
            rw [hos] at hl
            exact hl
          exact .success
            (d := [.call (.stat path), .call (.rmdir path), .reply 250 (ascii "Remove directory successful")])
            (by simp [sendControlMessage, sysStat, sysRmdir, call, emit]) rfl (by simp)
            (congrArg (Option.map _) hplace) hrmdir (becomes_remove hne hnames)
        · rename_i hremoved
          exact .refused
            (d := [.call (.stat path), .call (.rmdir path),
              .reply 550 (ascii "Failed to remove directory. Ensure it's empty.")])
            (by simp [sendControlMessage, sysStat, sysRmdir, call, emit]) (by simp [Action.success])
            ((System.rmdir_refused (Bool.not_eq_true _ ▸ hremoved)).trans hfiles)
  · exact .refused (d := [.reply 501 (ascii "Invalid syntax in parameters")]) rfl (by decide) rfl

theorem dele_served (cmd : CftpCommand)
    (hplain : ∀ target force, parseDeleParams cmd.args ≠ some (target, true, force)) :
    Served .dele cmd.args s (handleDeleCommand (onStore env) cmd s) := by
  unfold handleDeleCommand
  split
  · exact .refused (d := [.reply 501 (ascii "Invalid arguments for DELE.")]) rfl (by decide) rfl
  · rename_i target recursive force hparams
    have hrec : recursive = false := by
      cases recursive with
      | false => rfl
      | true => exact absurd hparams (hplain target force)
    subst hrec
    have hos := stat_os env s target
    have hfiles : (sysStat (onStore env) target s).2.os.files = s.os.files := by rw [hos]
    have hstatlog : ∀ n text, (sendControlMessage (onStore env) n text (sysStat (onStore env) target s).2).log =
        s.log ++ [.call (.stat target), .reply n text] := by simp [sendControlMessage, sysStat, call, emit]
    have hlog : ∀ n text,
        (sendControlMessage (onStore env) n text
          (sysUnlink (onStore env) target (sysStat (onStore env) target s).2).2).log =
          s.log ++ [.call (.stat target), .call (.unlink target), .reply n text] := by
      simp [sendControlMessage, sysStat, sysUnlink, call, emit]
    split
    · exact .refused (d := [.reply 550 (ascii "Invalid path")]) rfl (by decide) rfl
    · unfold deleteTarget
      dsimp only
      split
      · split
        · exact .refused (hstatlog _ _) (by simp [Action.success]; decide) hfiles
        · exact .refused (hstatlog _ _) (by simp [Action.success]) hfiles
      · split
        · exact .refused (hstatlog _ _) (by simp [Action.success]) hfiles
        · unfold replyDeleted
          split
          · rename_i hunlink
            have hkept := (System.unlink_refused (Bool.not_eq_true' _ ▸ hunlink)).trans hfiles
            split
            · exact .refused (hlog _ _) (by simp [Action.success]; decide) hkept
            · exact .refused (hlog _ _) (by simp [Action.success]) hkept
          · rename_i hunlink
            have hdone : (sysUnlink (onStore env) target (sysStat (onStore env) target s).2).1 = true := by
              simpa using hunlink
            obtain ⟨l, hl, hremoved, hne, hnames⟩ :=
              System.unlink_removed (w := (sysStat (onStore env) target s).2.os) hdone
            rw [hfiles] at hremoved hnames
            have hplace : s.os.unlinks s.proc target = some l := by
              rw [hos] at hl
              exact hl
            refine .success (hlog _ _) rfl (by simp) ?_ hremoved (becomes_remove hne hnames)
            simp [reported, hparams, Option.filter, hplace]

/-- STOR is refused, or `open` is and that is reported, or it reports the file that is open now. -/
theorem stor_cases (cmd : CftpCommand) :
    (∃ n text, n ≠ 150 ∧ (cftpStorAuthenticatedAction (onStore env) cmd s).log = s.log ++ [.reply n text] ∧
      (cftpStorAuthenticatedAction (onStore env) cmd s).os = System.after env s.os s.proc (.reply n text)) ∨
    ∃ path, cmd.args = [path] ∧
      (((onStore env).openWrite s.os s.proc path = false ∧ ∃ n text, n ≠ 150 ∧
          (cftpStorAuthenticatedAction (onStore env) cmd s).log = s.log ++ [.call (.openWrite path), .reply n text] ∧
          (cftpStorAuthenticatedAction (onStore env) cmd s).os =
            System.after env (System.after env s.os s.proc (.call (.openWrite path))) s.proc (.reply n text)) ∨
        ((onStore env).openWrite s.os s.proc path = true ∧ ∃ fd r, r = .reply 150 (ascii "Read to receive") ∧
          (cftpStorAuthenticatedAction (onStore env) cmd s).log = s.log ++ [.call (.openWrite path), .opened fd, r] ∧
          (cftpStorAuthenticatedAction (onStore env) cmd s).os =
            System.after env (System.after env (System.after env s.os s.proc (.call (.openWrite path))) s.proc
              (.opened fd)) s.proc r)) := by
  unfold cftpStorAuthenticatedAction withArg
  split
  · rename_i path hargs
    unfold cftpRecvFileWithEvbuffer
    split
    · exact .inl ⟨425, ascii "Cannot open data connection", by decide, rfl, rfl⟩
    · refine .inr ⟨path, hargs, ?_⟩
      cases hopen : (onStore env).openWrite s.os s.proc path with
      | false =>
        have hfail : sysOpenWrite (onStore env) path s = (none, call (onStore env) (.openWrite path) s) := by
          simp [sysOpenWrite, hopen]
        simp only [hfail]
        refine .inl ⟨trivial, 550, ascii "Failed to open file for writing", by decide, ?_, rfl⟩
        simp [sendControlMessage, setControlWriteCb, call, emit]
      | true =>
        have hok : sysOpenWrite (onStore env) path s =
            (some (s.nextId : Int), (newFd (onStore env) (call (onStore env) (.openWrite path) s)).2) := by
          simp [sysOpenWrite, hopen, newFd, call, emit]
        simp only [hok]
        refine .inr ⟨trivial, s.nextId, _, rfl, ?_, rfl⟩
        simp [sendControlMessage, newFd, fresh, call, emit]
  · exact .inl ⟨501, ascii "File path not provided", by decide, rfl, rfl⟩

theorem stor_served (cmd : CftpCommand) :
    Served .stor cmd.args s (cftpStorAuthenticatedAction (onStore env) cmd s) := by
  rcases stor_cases env s cmd with ⟨n, text, hn, hlog, hos⟩ |
    ⟨path, hargs, ⟨hopen, n, text, hn, hlog, hos⟩ | ⟨hopen, fd, r, rfl, hlog, hos⟩⟩
  · exact .refused hlog (by simp [Action.success, hn.symm]) (by rw [hos]; rfl)
  · refine .refused hlog (by simp [Action.success, hn.symm]) ?_
    rw [hos]
    exact (System.openWrite_refused hopen).1
  · obtain ⟨l, hat, -, hfiles⟩ := System.openWrite_opened hopen
    have hbecomes : Becomes l (some .file) s.os.files
        (System.after env s.os s.proc (.call (.openWrite path))).files := by
      rcases hfiles with ⟨hfile, hfiles⟩ | ⟨hv, hfiles⟩
      · rw [hfiles]
        exact becomes_write hfile _ _
      · rw [hfiles]
        exact becomes_create hv
    rw [hargs]
    refine .success hlog rfl (by simp) ?_ (by rw [hos]; rfl) hbecomes
    rw [hos]
    exact congrArg (Option.map _) hat

end Commands

/-! ## One event -/

section Succeeded

variable {chunk : Bytes} {d : List Effect} (ha : handlerOf s chunk = some a)
  (hlog : (step (onStore env) (.controlRead chunk) s).log = s.log ++ d)
include ha hlog

theorem succeeded_eq_some (h : ∃ r ∈ d, a.success = some r) : succeeded env (.controlRead chunk) s = some a := by
  obtain ⟨r, hr, hsuccess⟩ := h
  simp [succeeded, ha, newEffects_eq hlog, Option.filter, hsuccess, hr]

theorem succeeded_eq_none (h : ∀ r ∈ d, a.success ≠ some r) : succeeded env (.controlRead chunk) s = none := by
  cases hsuccess : a.success with
  | none => simp [succeeded, ha, hsuccess, Option.filter]
  | some r =>
    have hr : r ∉ d := fun hr => h r hr hsuccess
    simp [succeeded, ha, newEffects_eq hlog, Option.filter, hsuccess, hr]

end Succeeded

/-- A command that changes no entries makes no calls that do. -/
theorem keepsEntries_of_makes {c : Call} (ha : a.success = none) (hc : a.makes c = true) : c.keepsEntries = true := by
  cases c with
  | openWrite | unlink | mkdir | rmdir => cases a <;> simp_all [Action.makes, Action.success]
  | _ => rfl

theorem keepsEntries_of_looks {c : Call} (hc : c.looks = true) : c.keepsEntries = true := by
  cases c with
  | openWrite | unlink | mkdir | rmdir => cases hc
  | _ => rfl

/-- Another event changes no entries. -/
theorem step_entries (e : Event)
    (he : ∀ chunk a, e = .controlRead chunk → handlerOf s chunk = some a → a.success = none) :
    (step (onStore env) e s).os.files.entries = s.os.files.entries := by
  have hfollows : Follows (onStore env) (fun w => w.files.entries = s.os.files.entries)
      (CallIn fun c => c.keepsEntries = true) s.nextId := by
    intro w p e' hw he' _
    exact (System.after_entries he').trans hw
  refine step_os e s hfollows (fun e' he' c hc => ?_) rfl
  have hmakes := step_calls (onStore env) e s c (hc ▸ he')
  cases e with
  | controlRead chunk =>
    obtain ⟨a, ha, hc⟩ := hmakes
    exact keepsEntries_of_makes (he chunk a rfl ha) hc
  | dataEvent => exact keepsEntries_of_looks hmakes
  | _ => exact hmakes.elim

variable (env) in
/-- A command that changes entries. -/
theorem runAction_served {r : Effect} (cmd : CftpCommand) (ha : a.success = some r)
    (hplain : a = .dele → ∀ target force, parseDeleParams cmd.args ≠ some (target, true, force)) :
    Served a cmd.args s (runAction (onStore env) a cmd s) := by
  cases a with
  | mkd => exact mkd_served env s cmd
  | rmd => exact rmd_served env s cmd
  | dele => exact dele_served env s cmd (hplain rfl)
  | stor => exact stor_served env s cmd
  | _ => cases ha

/-- DELE with `-r` reports nothing, and there are no more entries than before. -/
theorem step_recursive {chunk target : Bytes} {force : Bool} (ha : handlerOf s chunk = some .dele)
    (hargs : parseDeleParams (commandOf s chunk).args = some (target, true, force)) :
    report env (.controlRead chunk) s = none ∧
      (step (onStore env) (.controlRead chunk) s).os.files.tree ≤ s.os.files.tree ∧
      (step (onStore env) (.controlRead chunk) s).os.files.number = s.os.files.number := by
  constructor
  · have hnone : ∀ w w' : System, reported .dele (commandOf s chunk).args s.proc w w' = none := by
      simp [reported, hargs, Option.filter]
    simp only [report, succeeded, ha, Option.filter_some]
    split
    · exact hnone s.os (step (onStore env) (.controlRead chunk) s).os
    · rfl
  · have hfollows : Follows (onStore env)
        (fun w => w.files.tree ≤ s.os.files.tree ∧ w.files.number = s.os.files.number)
        (CallIn fun c => c.adds = false) s.nextId := by
      intro w p e' hw he' _
      obtain ⟨hle, hnumber⟩ := System.after_le (w := w) (p := p) he'
      exact ⟨le_trans hle hw.1, hnumber.trans hw.2⟩
    refine step_os (.controlRead chunk) s hfollows (fun e' he' c hc => ?_) ⟨le_rfl, rfl⟩
    obtain ⟨a, ha', hmakes⟩ := step_calls (onStore env) (.controlRead chunk) s c (hc ▸ he')
    rw [ha, Option.some.injEq] at ha'
    subst ha'
    cases c with
    | openWrite | mkdir => cases hmakes
    | _ => rfl

variable (env) in
/-- **One event**: what is reported is there; else no entry has changed, or DELE with `-r` has removed some. -/
theorem step_reported (e : Event) (s : Session System) :
    (∃ l k, report env e s = some (l, k) ∧ Becomes l k s.os.files (step (onStore env) e s).os.files) ∨
      (report env e s = none ∧ (PlainDele e s → succeeded env e s = none) ∧
        (step (onStore env) e s).os.files.tree ≤ s.os.files.tree ∧
        (step (onStore env) e s).os.files.number = s.os.files.number ∧
        (PlainDele e s → (step (onStore env) e s).os.files.tree = s.os.files.tree)) := by
  have hsame : ∀ {f : FileStore Name UInt8}, f.entries = s.os.files.entries → f.tree ≤ s.os.files.tree ∧
      f.number = s.os.files.number ∧ (PlainDele e s → f.tree = s.os.files.tree) := by
    intro f h
    exact ⟨le_of_eq (congrArg (·.1) h), congrArg (·.2.1) h, fun _ => congrArg (·.1) h⟩
  by_cases hplain : PlainDele e s
  · by_cases hcmd : ∃ chunk a r, e = .controlRead chunk ∧ handlerOf s chunk = some a ∧ a.success = some r
    · obtain ⟨chunk, a, r, rfl, ha, hr⟩ := hcmd
      rcases command_cases (onStore env) ha with heq | heq
      · have hnone : succeeded env (.controlRead chunk) s = none :=
          succeeded_eq_none (d := []) ha (by rw [heq, List.append_nil]) nofun
        exact .inr ⟨by rw [report, hnone]; rfl, fun _ => hnone, hsame (by rw [heq])⟩
      · have hserved : Served a (commandOf s chunk).args (received s chunk)
            (step (onStore env) (.controlRead chunk) s) := by
          rw [heq]
          exact runAction_served env _ hr fun hdele target force => hplain chunk target force rfl (hdele ▸ ha)
        obtain ⟨d, hlog, ⟨hd, l, k, hreported, hbecomes⟩ | ⟨hd, hentries⟩⟩ := hserved
        · refine .inl ⟨l, k, ?_, hbecomes⟩
          rw [report, succeeded_eq_some ha hlog hd]
          exact hreported
        · have hnone := succeeded_eq_none ha hlog hd
          exact .inr ⟨by rw [report, hnone]; rfl, fun _ => hnone, hsame hentries⟩
    · have hsuccess : ∀ chunk a, e = .controlRead chunk → handlerOf s chunk = some a → a.success = none := by
        intro chunk a he ha
        by_contra hne
        obtain ⟨r, hr⟩ := Option.ne_none_iff_exists'.mp hne
        exact hcmd ⟨chunk, a, r, he, ha, hr⟩
      have hnone : succeeded env e s = none := by
        cases e with
        | controlRead chunk =>
          cases ha : handlerOf s chunk with
          | none => simp [succeeded, ha]
          | some a => simp [succeeded, ha, Option.filter, hsuccess chunk a rfl ha]
        | _ => rfl
      refine .inr ⟨?_, fun _ => hnone, hsame (step_entries e hsuccess)⟩
      cases e with
      | controlRead chunk => simp [report, hnone]
      | _ => rfl
  · have hrec : ∃ chunk target force, e = .controlRead chunk ∧ handlerOf s chunk = some .dele ∧
        parseDeleParams (commandOf s chunk).args = some (target, true, force) := by
      simpa only [PlainDele, not_forall, not_not, exists_prop] using hplain
    obtain ⟨chunk, target, force, rfl, ha, hargs⟩ := hrec
    obtain ⟨hreport, hle, hnumber⟩ := step_recursive ha hargs
    exact .inr ⟨hreport, fun h => absurd h hplain, hle, hnumber, fun h => absurd h hplain⟩

/-! ## Files that are not named -/

variable (env) in
/-- STOR opens no other file than the one it names. -/
theorem stor_shut {i : Nat} {c : Bytes} (cmd : CftpCommand) (h : System.Shut i c s.os)
    (hne : ∀ path, cmd.args = [path] →
      Effect.reply 150 (ascii "Read to receive") ∈ newEffects s (cftpStorAuthenticatedAction (onStore env) cmd s) →
      (cftpStorAuthenticatedAction (onStore env) cmd s).os.fileNumber s.proc path ≠ some i) :
    System.Shut i c (cftpStorAuthenticatedAction (onStore env) cmd s).os := by
  rcases stor_cases env s cmd with ⟨n, text, -, -, hos⟩ |
    ⟨path, hargs, ⟨hopen, n, text, -, -, hos⟩ | ⟨hopen, fd, r, rfl, hlog, hos⟩⟩
  · rw [hos]
    exact h.after env s.proc (by simp)
  · rw [hos]
    exact (h.openWrite_refused hopen).after env s.proc (by simp)
  · have hnumber := hne path hargs (by rw [newEffects_eq hlog]; simp)
    rw [hos] at hnumber ⊢
    exact ((h.openWrite hopen hnumber).after env s.proc (by simp)).after env s.proc (by simp)

/-- **One event** that does not name the file. -/
theorem step_shut {i : Nat} {c : Bytes} (e : Event) (h : System.Shut i c s.os) (hne : storFile env e s ≠ some i) :
    System.Shut i c (step (onStore env) e s).os := by
  by_cases hstor : ∃ chunk, e = .controlRead chunk ∧ handlerOf s chunk = some .stor
  · obtain ⟨chunk, rfl, ha⟩ := hstor
    rcases command_cases (onStore env) ha with heq | heq
    · rw [heq]
      exact h
    · have hrun : step (onStore env) (.controlRead chunk) s =
          cftpStorAuthenticatedAction (onStore env) (commandOf s chunk) (received s chunk) := heq
      rw [hrun]
      refine stor_shut env (commandOf s chunk) h fun path hargs hreply => ?_
      simp only [storFile, ha, hargs, hrun] at hne
      rw [if_pos (by exact hreply)] at hne
      exact hne
  · have hfollows : Follows (onStore env) (System.Shut i c) (fun e => ∀ path, e ≠ .call (.openWrite path)) s.nextId :=
      fun w p e' hw he' _ => System.Shut.after hw env p he'
    refine step_os e s hfollows (fun e' he' path hpath => ?_) h
    have hmakes := step_calls (onStore env) e s (.openWrite path) (hpath ▸ he')
    cases e with
    | controlRead chunk =>
      obtain ⟨a, ha, hc⟩ := hmakes
      exact hstor ⟨chunk, rfl, ha.trans (congrArg some (of_decide_eq_true hc))⟩
    | dataEvent => cases hmakes
    | _ => exact hmakes.elim

/-! ## Every run -/

/-- A place is as it was at the start and has been reported since, unless DELE with `-r` has cleared it; and the file
`i` is as it was unless it has been named. -/
structure Recorded (plain : Prop) (f : FileStore Name UInt8) (l : List Name) (i : Nat) (w : System) (stored : List Nat)
    (last : Option (Option (Node Name))) : Prop where
  node : w.files.tree.node l = last.getD (f.tree.node l) ∨ (¬ plain ∧ w.files.tree.node l = none)
  number : last = none → w.files.number l = f.number l
  shut : i ∉ stored → System.Shut i (f.contents i) w

variable (env) in
/-- **One event.** -/
theorem step_recorded {plain : Prop} {f : FileStore Name UInt8} {l : List Name} {i : Nat} {stored : List Nat}
    {last : Option (Option (Node Name))} (e : Event) (hplain : plain → PlainDele e s)
    (h : Recorded plain f l i s.os stored last) :
    Recorded plain f l i (step (onStore env) e s).os (stored ++ storFiles env e s) ((reportAt env l e s).or last) := by
  have hshut : i ∉ stored ++ storFiles env e s → System.Shut i (f.contents i) (step (onStore env) e s).os := by
    intro hi
    rw [List.mem_append, not_or] at hi
    refine step_shut e (h.shut hi.1) fun hnamed => hi.2 ?_
    rw [storFiles, hnamed]
    exact List.mem_singleton_self i
  rcases step_reported env e s with ⟨l', k, hreport, hbecomes⟩ | ⟨hreport, -, hle, hnumber, hsame⟩
  · by_cases hl : l' = l
    · subst hl
      have hat : reportAt env l' e s = some k := by rw [reportAt, hreport, Option.bind_some, if_pos rfl]
      rw [hat]
      exact ⟨.inl hbecomes.node, fun hnone => (by cases hnone), hshut⟩
    · have hat : reportAt env l e s = none := by rw [reportAt, hreport, Option.bind_some, if_neg hl]
      obtain ⟨hnode, hnumber⟩ := hbecomes.others l (Ne.symm hl)
      rw [hat, Option.none_or]
      refine ⟨?_, fun hnone => hnumber.trans (h.number hnone), hshut⟩
      rw [hnode]
      exact h.node
  · have hat : reportAt env l e s = none := by rw [reportAt, hreport, Option.bind_none]
    rw [hat, Option.none_or]
    refine ⟨?_, fun hnone => (congrFun hnumber l).trans (h.number hnone), hshut⟩
    rcases h.node with hnode | ⟨hrec, hnode⟩
    · by_cases hp : plain
      · rw [hsame (hplain hp)]
        exact .inl hnode
      · cases hafter : (step (onStore env) e s).os.files.tree.node l with
        | none => exact .inr ⟨hp, rfl⟩
        | some k =>
          rw [← hnode]
          exact .inl (Tree.node_of_le hle hafter).symm
    · exact .inr ⟨hrec, Tree.node_eq_none_of_le hle hnode⟩

/-- **A whole run.** -/
theorem run_recorded (env : Env Moment) (addr : SockAddr) (proc : Proc) (w : System) (hopening : w.opening = none)
    (hhandles : ∀ fd, w.handles fd = none) (es : List Event) (l : List Name) (i : Nat) :
    Recorded (Guarded (step (onStore env)) PlainDele es (start (onStore env) addr proc w)) w.files l i
      (reached (onStore env) addr proc w es).os
      (collected (step (onStore env)) (storFiles env) es (start (onStore env) addr proc w))
      (latest (step (onStore env)) (reportAt env l) es (start (onStore env) addr proc w) none) := by
  generalize hplain : Guarded (step (onStore env)) PlainDele es (start (onStore env) addr proc w) = plain
  have hguard : Guarded (step (onStore env)) (fun e s => plain → PlainDele e s) es
      (start (onStore env) addr proc w) := by
    by_cases hp : plain
    · exact Guarded.mono (fun e s h _ => h) (hplain.mpr hp)
    · exact Guarded.mono (fun e s _ h => absurd h hp) (guarded_true es _)
  have hshut : System.Shut i (w.files.contents i) w :=
    ⟨rfl, fun fd pos => by rw [hhandles]; exact (Option.some_ne_none _).symm,
      fun pos => by rw [hopening]; exact (Option.some_ne_none _).symm⟩
  have hstart : Recorded plain w.files l i (start (onStore env) addr proc w).os [] none :=
    ⟨.inl rfl, fun _ => rfl, fun _ => (hshut.after env proc (e := .timerNew 0) (by simp)).after env proc
      (e := .reply 220 (ascii "Welcome to CFTP Server")) (by simp)⟩
  exact run_inv_recorded (P := fun s acc last => Recorded plain w.files l i s.os acc last)
    (fun e s acc last hg h => step_recorded env e hg h) es hguard hstart

/-- **What is there has been reported.** In every state of a session that starts with nothing open, whatever happens on
its connections: at every place there is what the last reply about it has reported, or what was there at the start;
only DELE with `-r` can have left nothing there. A file of which nothing has been reported, and which no STOR has named,
has the contents it had. And the next command whose reply reports a success has done what it reports, unless it is such a
DELE. -/
theorem files_as_reported (env : Env Moment) (addr : SockAddr) (proc : Proc) (w : System) (hopening : w.opening = none)
    (hhandles : ∀ fd, w.handles fd = none) (es : List Event) (s : Session System)
    (hs : s = reached (onStore env) addr proc w es) :
    (∀ l, s.os.files.tree.node l = (latest (step (onStore env)) (reportAt env l) es
          (start (onStore env) addr proc w) none).getD (w.files.tree.node l) ∨
        (¬ Guarded (step (onStore env)) PlainDele es (start (onStore env) addr proc w) ∧
          s.os.files.tree.node l = none)) ∧
      (∀ l, latest (step (onStore env)) (reportAt env l) es (start (onStore env) addr proc w) none = none →
        w.files.number l ∉ collected (step (onStore env)) (storFiles env) es (start (onStore env) addr proc w) →
        s.os.files.text l = w.files.text l ∨
          (¬ Guarded (step (onStore env)) PlainDele es (start (onStore env) addr proc w) ∧
            s.os.files.text l = none)) ∧
      ∀ e, PlainDele e s → succeeded env e s ≠ none →
        ∃ l k, report env e s = some (l, k) ∧ Becomes l k s.os.files (step (onStore env) e s).os.files := by
  have hrun : ∀ l i, Recorded (Guarded (step (onStore env)) PlainDele es (start (onStore env) addr proc w)) w.files l i
      s.os (collected (step (onStore env)) (storFiles env) es (start (onStore env) addr proc w))
      (latest (step (onStore env)) (reportAt env l) es (start (onStore env) addr proc w) none) := by
    intro l i
    rw [hs]
    exact run_recorded env addr proc w hopening hhandles es l i
  refine ⟨fun l => (hrun l 0).node, fun l hlast hstored => ?_, fun e hplain hne => ?_⟩
  · have h := hrun l (w.files.number l)
    refine h.node.imp (fun hnode => ?_) fun ⟨hrec, hnode⟩ => ⟨hrec, ?_⟩
    · rw [hlast, Option.getD_none] at hnode
      rw [FileStore.text, FileStore.text, hnode, h.number hlast, (h.shut hstored).contents]
    · rw [FileStore.text, hnode, if_neg (Option.some_ne_none _).symm]
  · rcases step_reported env e s with hreported | ⟨-, hnone, -⟩
    · exact hreported
    · exact absurd (hnone hplain) hne

/-- The name `photos`. -/
def photos : Name := ⟨ascii "photos", by decide⟩

/-- She makes two directories, removes one of them, and fails to delete the other one as a file. -/
def errands : List Event :=
  [.controlRead (ascii "MKD x\r\n"), .controlRead (ascii "MKD photos\r\n"), .controlRead (ascii "RMD x/\r\n"),
    .controlRead (ascii "DELE photos\r\n")]

/-- The last that was reported of her photos is that there is a directory, and nothing was of the file elsewhere. -/
theorem mansion_reported :
    (mansionSession (ascii "root") errands).os.files.tree.node [homes, alice, photos] = some .dir ∧
      (mansionSession (ascii "root") errands).os.files.text [etc, passwd] = some (ascii "root") := by
  obtain ⟨hnodes, htexts, -⟩ := files_as_reported mansionEnv (.inet 127 0 0 1) ⟨ascii "/", ascii "/", 0, 0, []⟩
    (mansion (ascii "root")) rfl (fun _ => rfl)
    (.controlRead (ascii "USER alice\r\n") :: .controlRead (ascii "PASS x\r\n") :: errands)
    (mansionSession (ascii "root") errands) rfl
  constructor
  · rcases hnodes [homes, alice, photos] with hnode | ⟨-, hnone⟩
    · exact hnode.trans (by decide +kernel)
    · exact absurd hnone (by decide +kernel)
  · rcases htexts [etc, passwd] (by decide +kernel) (by decide +kernel) with htext | ⟨-, hnone⟩
    · exact htext.trans (by decide +kernel)
    · exact absurd hnone (by decide +kernel)

end Session

end CftpServer
