import CftpServer.Session.Reports

/-!
# The working directory

After the login only an accepted CWD moves the process, to where its path leads; that may be the directory it is in, or
one above it, also if they have been removed. PWD answers with the name of the place below the home, and a later CWD
with that name leads back to it, as long as the directory is there.

* `cwd_accepted_iff`: which paths CWD accepts
* `cwd_as_answered`: where the process is, in every run
-/

namespace CftpServer

open CLib FileTree

/-! ## Names of places lead there -/

section Names

variable {t : Disk} {p : Proc} {l : List Name} {follow : Bool}

/-- The components of the name of a place. -/
theorem steps_pathTo (l : List Name) : steps (pathTo [] l) = .stay :: l.map .down := by
  induction l using List.reverseRecOn with
  | nil => decide
  | append_singleton l n ih =>
    rw [pathTo_concat, steps_append, ih, steps_name, List.map_append]
    rfl

theorem head_pathOf (l : List Name) : (pathOf l).head? = some slash := by
  unfold pathOf
  split
  · rfl
  · cases l with
    | nil => contradiction
    | cons n l => simp [pathTo]

/-- The name of a directory, below the root of the process, leads to it. -/
theorem resolve_pathOf (hdir : t.node (placeOf p.root ++ l) = some .dir) (hlen : (pathOf l).length < Session.PATH_MAX) :
    resolve t p follow (pathOf l) = some (placeOf p.root ++ l) := by
  have hroot : t.node (placeOf p.root) = some .dir := by
    by_cases hl : l = []
    · rwa [hl, List.append_nil] at hdir
    · exact Tree.node_above hl (by rw [hdir]; exact Option.some_ne_none _)
  have hstart : startOf p (pathOf l) = placeOf p.root := if_pos (head_pathOf l)
  have hne : pathOf l ≠ [] := by
    intro h
    have := head_pathOf l
    rw [h] at this
    cases this
  rw [resolve_eq_some_iff, hstart]
  refine ⟨⟨hne, hlen, hroot, by rw [hstart]; exact hroot⟩, ?_⟩
  unfold pathOf
  split
  · rename_i hl
    rw [hl, List.append_nil, show steps [slash] = [.stay, .stay] by decide]
    exact .stay (.stay .here)
  · rw [steps_pathTo]
    exact .stay (leads_downs hdir)

/-- A path from the root does not begin in the working directory. -/
theorem way_of_absolute {w : System} {path : Bytes} (h : path.head? = some slash) : w.way p path = .goesOn p path :=
  if_pos (.inr h)

/-- Where `chdir` goes. -/
theorem chdir_place {env : Env Moment} {w : System} {path : Bytes} (hok : (onStore env).chdir w p path = true) :
    ∃ n l, w.goesTo p path = some (n, l) ∧ placeOf ((onStore env).directory w p path) = l := by
  have hsome : (w.goesTo p path).isSome = true := (Bool.and_eq_true_iff.mp hok).2
  obtain ⟨⟨n, l⟩, h⟩ := Option.isSome_iff_exists.mp hsome
  refine ⟨n, l, h, ?_⟩
  unfold Env.directory
  split
  · rename_i hpath
    have hway : w.way p path = .goesOn p path := way_of_absolute (by rw [hpath]; rfl)
    rcases System.goesTo_cases h with ⟨-, hdir⟩ | ⟨-, hends⟩
    · obtain ⟨hleads, -⟩ := System.directoryAt_eq_some_iff.mp hdir
      rw [System.leadsTo, System.onWay, hway] at hleads
      obtain ⟨-, -, hroot, -⟩ := (resolve_eq_some_iff.mp hleads).1
      have hslash : resolve w.files.tree p true (pathOf []) = some (placeOf p.root ++ []) :=
        resolve_pathOf (by rw [List.append_nil]; exact hroot) (by decide)
      rw [List.append_nil] at hslash
      rw [hpath] at hleads
      exact Option.some.inj (hslash.symm.trans hleads)
    · cases hway.symm.trans hends
  · simp only [onStore, h, Option.map_some, Option.getD_some, placeOf_pathOf]

end Names

namespace Session

open Command Runs Security

variable {env : Env Moment} {s s' : Session System} {a : Action} {e : Event} {p₀ : Proc}

/-! ## What moves the process -/

/-- A process that stays where it is. -/
def staying (env : Env Moment) (p₀ : Proc) : Coupling System System where
  left := onStore env
  right := onStore env
  calls := fun c => ∀ path, c ≠ .chdir path
  related := fun p _ _ v w => w = v ∧ p = p₀
  outcomes := by
    rintro p n log v _ ⟨rfl, -⟩
    rfl
  fresh := id
  after := by
    rintro p n log v _ e ⟨rfl, h⟩ -
    exact ⟨rfl, h⟩
  chdir := by
    rintro p n log v _ path - hcall
    exact absurd rfl (hcall path)

/-- Only CWD moves the process of a client who is logged in. -/
theorem step_proc (ha : s.conn.authenticated = true)
    (he : ∀ chunk, e = .controlRead chunk → handlerOf s chunk ≠ some .cwd) :
    (step (onStore env) e s).proc = s.proc := by
  have hpaired : (staying env s.proc).Paired s s := ⟨rfl, rfl, rfl⟩
  refine (Coupling.step_paired hpaired e (fun chunk a heq hact => ⟨?_, fun c hc path hpath => ?_⟩) ?_).2.2
  · exact actionFor_authenticated (by rw [← ha]; exact hact)
  · subst hpath
    have hcwd : a = .cwd := of_decide_eq_true hc
    exact he chunk heq (hcwd ▸ hact)
  · intro b v connected timeout error eof _ _ c hc path hpath
    subst hpath
    cases hc

/-- `stat` finds a directory where `chdir` would go to one. -/
theorem stat_isDir {w : System} {p : Proc} {path : Bytes} : ((onStore env).stat w p path).elim false Stat.isDir = true ↔
    permits env w.moment p (.stat path) = true ∧ (w.goesTo p path).isSome = true := by
  have hshows : ∀ st, (w.shows p true path st).elim false Stat.isDir = (w.goesTo p path).isSome := by
    intro st
    rw [System.shows, System.goesTo, Option.isSome_or, Option.isSome_map]
    cases hremoved : (w.removedAt p path).isSome with
    | true => simp [Stat.isDir]
    | false =>
      simp only [Bool.false_eq_true, if_false, Bool.or_false, System.directoryAt, System.describe]
      cases w.leadsTo p true path with
      | none => rfl
      | some l =>
        cases hnode : w.files.tree.node l with
        | none => simp [hnode]
        | some k => cases k <;> simp [hnode, Stat.isDir]
  simp only [onStore, permits]
  cases env.stat w.moment p path with
  | none => simp
  | some st => simp [hshows]

/-- The reply of a CWD that succeeds. -/
def directoryChanged : Effect := .text (ascii "250 Directory successfully changed.\r\n")

/-- The reply of PWD that names a directory. -/
def namesDirectory (path : Bytes) : Effect :=
  .reply 257 (ascii "\"" ++ path ++ ascii "\" is current directory")

variable (env) in
/-- The place that an accepted CWD leads to. -/
def cwdPlace (e : Event) (s : Session System) : Option (List Name) :=
  match e with
  | .controlRead chunk =>
    match handlerOf s chunk, (commandOf s chunk).args with
    | some .cwd, [path] =>
      if directoryChanged ∈ newEffects s (step (onStore env) e s) then
        (s.os.goesTo s.proc (cut PATH_MAX path)).map Prod.snd
      else none
    | _, _ => none
  | _ => none

/-- CWD takes the path: it is one it looks at, it leads to a directory, which may have been removed, and neither `stat`
nor the `chdir` after it is refused. -/
structure TakesCwd (env : Env Moment) (path : Bytes) (s : Session System) : Prop where
  nonempty : path ≠ []
  safe : isPathSafe path = true
  directory : (s.os.goesTo s.proc (cut PATH_MAX path)).isSome = true
  stat : permits env s.os.moment s.proc (.stat (cut PATH_MAX path)) = true
  chdir : permits env ⟨s.os.ticks + 1, none⟩ s.proc (.chdir (cut PATH_MAX path)) = true

variable (env s) in
/-- What `handle_cwd_command` does: it refuses the path, or it leads to a directory, which may have been removed. -/
theorem handleCwdCommand_cases (path : Bytes) : ∃ d, (handleCwdCommand (onStore env) path s).log = s.log ++ d ∧
    ((directoryChanged ∉ d ∧ (handleCwdCommand (onStore env) path s).proc = s.proc ∧ ¬ TakesCwd env path s) ∨
      (directoryChanged ∈ d ∧ TakesCwd env path s ∧ ∃ n l, s.os.goesTo s.proc (cut PATH_MAX path) = some (n, l) ∧
        placeOf (handleCwdCommand (onStore env) path s).proc.cwd = l)) := by
  unfold handleCwdCommand
  have hos := stat_os env s (cut PATH_MAX path)
  split
  · rename_i hempty
    exact ⟨_, rfl, .inl ⟨by decide, rfl, fun h => h.nonempty hempty⟩⟩
  · rename_i hne
    split
    · rename_i hrefuses
      rw [Bool.not_eq_true'] at hrefuses
      exact ⟨_, rfl, .inl ⟨by decide, rfl, fun h => Bool.noConfusion (hrefuses.symm.trans h.safe)⟩⟩
    · rename_i hsafe
      rw [Bool.not_eq_true', Bool.not_eq_false] at hsafe
      dsimp only
      split
      · rename_i hnodir
        rw [Bool.not_eq_true'] at hnodir
        refine ⟨[.call (.stat (cut PATH_MAX path)), .text (ascii "550 Not a directory.\r\n")],
          by simp [writeTextResponse, sysStat, call, emit], .inl ⟨?_, rfl, fun h => ?_⟩⟩
        · simp only [directoryChanged, List.mem_cons, reduceCtorEq, List.not_mem_nil, or_false, false_or]
          decide
        · exact Bool.noConfusion (hnodir.symm.trans (stat_isDir.mpr ⟨h.stat, h.directory⟩))
      · rename_i hisdir
        rw [Bool.not_eq_true', Bool.not_eq_false] at hisdir
        obtain ⟨hstat, hdirectory⟩ := stat_isDir.mp hisdir
        have hchdir : (onStore env).chdir (sysStat (onStore env) (cut PATH_MAX path) s).2.os s.proc
            (cut PATH_MAX path) = permits env ⟨s.os.ticks + 1, none⟩ s.proc (.chdir (cut PATH_MAX path)) := by
          rw [hos]
          exact (congrArg _ hdirectory).trans (Bool.and_true _)
        unfold sysChdir
        split
        · rename_i hok
          obtain ⟨n, l, hl, hplace⟩ := chdir_place hok
          rw [hos] at hl
          refine ⟨[.call (.stat (cut PATH_MAX path)), .call (.chdir (cut PATH_MAX path)), directoryChanged], ?_,
            .inr ⟨by simp, ⟨hne, hsafe, hdirectory, hstat, hchdir.symm.trans hok⟩, n, l, hl, hplace⟩⟩
          simp [writeTextResponse, sysStat, call, emit, directoryChanged]
        · rename_i hrefused
          refine ⟨[.call (.stat (cut PATH_MAX path)), .call (.chdir (cut PATH_MAX path)),
            .text (ascii "550 Failed to change directory.\r\n")],
            by simp [writeTextResponse, sysStat, call, emit], .inl ⟨?_, rfl, fun h => hrefused (hchdir.trans h.chdir)⟩⟩
          simp only [directoryChanged, List.mem_cons, reduceCtorEq, List.not_mem_nil, or_false, false_or]
          decide

variable (env s) in
/-- What CWD does. -/
theorem cwd_cases (cmd : CftpCommand) : ∃ d, (cftpCwdAuthenticatedAction (onStore env) cmd s).log = s.log ++ d ∧
    ((directoryChanged ∉ d ∧ (cftpCwdAuthenticatedAction (onStore env) cmd s).proc = s.proc ∧
        ∀ path, cmd.args = [path] → ¬ TakesCwd env path s) ∨
      (directoryChanged ∈ d ∧ ∃ path n l, cmd.args = [path] ∧ TakesCwd env path s ∧
        s.os.goesTo s.proc (cut PATH_MAX path) = some (n, l) ∧
        placeOf (cftpCwdAuthenticatedAction (onStore env) cmd s).proc.cwd = l)) := by
  unfold cftpCwdAuthenticatedAction withArg
  split
  · rename_i path hargs
    have honly : ¬ TakesCwd env path s → ∀ path', cmd.args = [path'] → ¬ TakesCwd env path' s := by
      intro hno path' hargs'
      rw [hargs, List.singleton_inj] at hargs'
      exact hargs' ▸ hno
    dsimp only
    split
    · obtain ⟨d, hlog, ⟨hd, hproc, hno⟩ | ⟨hd, htakes, n, l, hl, hplace⟩⟩ := handleCwdCommand_cases env s path
      · exact ⟨d, hlog, .inl ⟨hd, hproc, honly hno⟩⟩
      · exact ⟨d, hlog, .inr ⟨hd, path, n, l, hargs, htakes, hl, hplace⟩⟩
    · rename_i hempty
      exact ⟨_, rfl, .inl ⟨by decide, rfl, honly fun h => hempty h.nonempty⟩⟩
  · rename_i hmany
    exact ⟨_, rfl, .inl ⟨by decide, rfl, fun path hargs => absurd hargs (hmany path)⟩⟩

variable (env) in
/-- A CWD of one path that is carried out is answered by 250 exactly if it takes the path. -/
theorem cwd_accepted_iff {chunk path : Bytes} (hs : s.ended = none) (hne : chunk ≠ [])
    (ha : handlerOf s chunk = some .cwd) (hargs : (commandOf s chunk).args = [path]) :
    directoryChanged ∈ newEffects s (step (onStore env) (.controlRead chunk) s) ↔ TakesCwd env path s := by
  obtain ⟨d, hlog, hcases⟩ := cwd_cases env (received s chunk) (commandOf s chunk)
  have hnew : newEffects s (step (onStore env) (.controlRead chunk) s) = d :=
    newEffects_eq (by rw [step_command hs hne ha]; exact hlog)
  have hsame : TakesCwd env path (received s chunk) ↔ TakesCwd env path s :=
    ⟨fun ⟨h₁, h₂, h₃, h₄, h₅⟩ => ⟨h₁, h₂, h₃, h₄, h₅⟩, fun ⟨h₁, h₂, h₃, h₄, h₅⟩ => ⟨h₁, h₂, h₃, h₄, h₅⟩⟩
  rw [hnew, ← hsame]
  rcases hcases with ⟨hd, -, hno⟩ | ⟨hd, path', n, l, hargs', htakes, -⟩
  · exact iff_of_false hd (hno path hargs)
  · rw [hargs, List.singleton_inj] at hargs'
    exact iff_of_true hd (hargs' ▸ htakes)

variable (env) in
/-- **One event** after the login: the process is where an accepted CWD leads, or where it was. -/
theorem step_cwd (e : Event) (ha : s.conn.authenticated = true) :
    placeOf (step (onStore env) e s).proc.cwd = (cwdPlace env e s).getD (placeOf s.proc.cwd) := by
  by_cases hcwd : ∃ chunk, e = .controlRead chunk ∧ handlerOf s chunk = some .cwd
  · obtain ⟨chunk, rfl, hact⟩ := hcwd
    rcases command_cases (onStore env) hact with heq | heq
    · have hnone : cwdPlace env (.controlRead chunk) s = none := by
        simp only [cwdPlace, hact, heq, newEffects_self, List.not_mem_nil, if_false]
        split <;> rfl
      rw [hnone, heq, Option.getD_none]
    · obtain ⟨d, hlog, hcases⟩ := cwd_cases env (received s chunk) (commandOf s chunk)
      have hnew : newEffects s (step (onStore env) (.controlRead chunk) s) = d :=
        newEffects_eq (by rw [heq]; exact hlog)
      rw [heq]
      rcases hcases with ⟨hd, hproc, -⟩ | ⟨hd, path, n, l, hargs, -, hl, hplace⟩
      · have hnone : cwdPlace env (.controlRead chunk) s = none := by
          simp only [cwdPlace, hact, hnew, if_neg hd]
          split <;> rfl
        rw [hnone, Option.getD_none]
        exact congrArg (fun p => placeOf p.cwd) hproc
      · have hsome : cwdPlace env (.controlRead chunk) s = some l := by
          simp only [cwdPlace, hact, hargs, hnew, if_pos hd]
          exact congrArg (Option.map Prod.snd) hl
        rw [hsome]
        exact hplace
  · have hnone : cwdPlace env e s = none := by
      unfold cwdPlace
      split
      · rename_i chunk
        split
        · rename_i hact _
          exact absurd ⟨chunk, rfl, hact⟩ hcwd
        · rfl
      · rfl
    rw [hnone, step_proc ha fun chunk heq hact => hcwd ⟨chunk, heq, hact⟩, Option.getD_none]

/-! ## What PWD answers -/

/-- The text of PWD is not cut, so it has the name as it is. -/
theorem pwdText_inj {path cwd : Bytes} (hlen : path.length < PATH_MAX)
    (h : cut (PATH_MAX + 32) (ascii "\"" ++ cwd ++ ascii "\" is current directory") =
      ascii "\"" ++ path ++ ascii "\" is current directory") : cwd = path := by
  have htail : (ascii "\" is current directory").length = 22 := by decide
  have hquote : (ascii "\"").length = 1 := by decide
  have hlength := congrArg List.length h
  by_cases hcut : (ascii "\"" ++ cwd ++ ascii "\" is current directory").length < PATH_MAX + 32
  · rw [cut_of_lt hcut, List.append_cancel_right_eq, List.append_cancel_left_eq] at h
    exact h
  · simp only [cut, List.length_take, List.length_append, htail, hquote] at hlength hcut
    omega

variable (env) in
/-- PWD that names a directory names the one the process is in, from the root of the process. -/
theorem pwd_names {chunk path : Bytes} (ha : handlerOf s chunk = some .pwd) (hlen : path.length < PATH_MAX)
    (h : namesDirectory path ∈ newEffects s (step (onStore env) (.controlRead chunk) s)) :
    ∃ l, path = pathOf l ∧ placeOf s.proc.cwd = placeOf s.proc.root ++ l := by
  rcases command_cases (onStore env) ha with heq | heq
  · rw [heq, newEffects_self] at h
    cases h
  · have hrun : runAction (onStore env) .pwd (commandOf s chunk) (received s chunk) =
        cftpPwdAuthenticatedAction (onStore env) (received s chunk) := rfl
    rw [heq, hrun, cftpPwdAuthenticatedAction] at h
    cases hcwd : (onStore env).getcwd s.os s.proc with
    | none =>
      have hcwd' : (onStore env).getcwd (received s chunk).os (received s chunk).proc = none := hcwd
      simp only [hcwd'] at h
      rw [newEffects_eq (d := [.reply 550 (ascii "Failed to get current directory")]) rfl] at h
      simp [namesDirectory] at h
    | some cwd =>
      have hcwd' : (onStore env).getcwd (received s chunk).os (received s chunk).proc = some cwd := hcwd
      simp only [hcwd'] at h
      rw [newEffects_eq
          (d := [.reply 257 (cut (PATH_MAX + 32) (ascii "\"" ++ cwd ++ ascii "\" is current directory"))]) rfl,
        List.mem_singleton, namesDirectory, Effect.reply.injEq] at h
      have hname := pwdText_inj hlen h.2.symm
      simp only [onStore] at hcwd
      split at hcwd
      · cases hcwd
      · rename_i hwithin
        rw [not_or, not_not, not_not] at hwithin
        obtain ⟨_, -, rfl⟩ := Option.map_eq_some_iff.mp hcwd
        obtain ⟨l, hl⟩ := hwithin.2
        refine ⟨l, ?_, hl.symm⟩
        rw [← hname, ← hl, List.drop_left]

/-! ## Every run -/

variable (env) in
/-- A client who is logged in stays so, at the same home. -/
theorem run_home (es : List Event) (ha : s.conn.authenticated = true) :
    (run (step (onStore env)) es s).conn.authenticated = true ∧ (run (step (onStore env)) es s).home = s.home := by
  refine run_inv (P := fun s' : Session System => s'.conn.authenticated = true ∧ s'.home = s.home) (fun e s' h => ?_) es
    ⟨ha, rfl⟩
  exact ⟨(step_afterLogin (onStore env) e h.1).1, (step_home e h.1).trans h.2⟩

/-- The name that PWD gives leads back, as long as the directory is there. -/
theorem cwd_back {l : List Name} (hdir : s.os.files.tree.node (placeOf s.proc.root ++ l) = some .dir)
    (hlen : (pathOf l).length < PATH_MAX) : s.os.goesTo s.proc (cut PATH_MAX (pathOf l)) =
      some (0, placeOf s.proc.root ++ l) := by
  have hleads : s.os.leadsTo s.proc true (pathOf l) = some (placeOf s.proc.root ++ l) :=
    System.leadsTo_eq_some_iff.mpr ⟨_, _, way_of_absolute (head_pathOf l), resolve_pathOf hdir hlen⟩
  have hat : s.os.directoryAt s.proc (pathOf l) = some (placeOf s.proc.root ++ l) :=
    System.directoryAt_eq_some_iff.mpr ⟨hleads, hdir⟩
  rw [cut_of_lt hlen, System.goesTo, hat, Option.map_some, Option.some_or]

/-- **The working directory is as it is answered.** From a login on, whatever happens on the connections: the process is
where the last accepted CWD has led, or where it was. A CWD that is carried out is accepted exactly if it takes the path.
If PWD names its directory then CWD with that name, when it is accepted at any later time while the directory is there,
leads back to it. -/
theorem cwd_as_answered (env : Env Moment) (s₀ : Session System) (ha : s₀.conn.authenticated = true) (es : List Event)
    (s : Session System) (hs : s = run (step (onStore env)) es s₀) :
    placeOf s.proc.cwd = (latest (step (onStore env)) (cwdPlace env) es s₀ none).getD (placeOf s₀.proc.cwd) ∧
      (∀ chunk path, s.ended = none → chunk ≠ [] → handlerOf s chunk = some .cwd → (commandOf s chunk).args = [path] →
        (directoryChanged ∈ newEffects s (step (onStore env) (.controlRead chunk) s) ↔ TakesCwd env path s)) ∧
      ∀ chunk path, handlerOf s chunk = some .pwd → path.length < PATH_MAX →
        namesDirectory path ∈ newEffects s (step (onStore env) (.controlRead chunk) s) →
        ∀ es' s' chunk', s' = run (step (onStore env)) es' s →
          s'.os.files.tree.node (placeOf s.proc.cwd) = some .dir →
          handlerOf s' chunk' = some .cwd → (commandOf s' chunk').args = [path] →
          directoryChanged ∈ newEffects s' (step (onStore env) (.controlRead chunk') s') →
          placeOf (step (onStore env) (.controlRead chunk') s').proc.cwd = placeOf s.proc.cwd := by
  have hlogged : s.conn.authenticated = true := hs ▸ (run_home env es ha).1
  refine ⟨?_, fun chunk path hrunning hne hcwd hargs => cwd_accepted_iff env hrunning hne hcwd hargs, ?_⟩
  · have hstart : s₀.conn.authenticated = true ∧
        placeOf s₀.proc.cwd = (none : Option (List Name)).getD (placeOf s₀.proc.cwd) := ⟨ha, rfl⟩
    have hrun : (run (step (onStore env)) es s₀).conn.authenticated = true ∧
        placeOf (run (step (onStore env)) es s₀).proc.cwd =
          (latest (step (onStore env)) (cwdPlace env) es s₀ none).getD (placeOf s₀.proc.cwd) := by
      refine run_inv_latest (P := fun (s' : Session System) (last : Option (List Name)) =>
        s'.conn.authenticated = true ∧ placeOf s'.proc.cwd = last.getD (placeOf s₀.proc.cwd)) (fun e s' last h => ?_) es
        hstart
      refine ⟨(step_afterLogin (onStore env) e h.1).1, ?_⟩
      rw [step_cwd env e h.1, h.2]
      cases cwdPlace env e s' <;> rfl
    rw [hs]
    exact hrun.2
  · intro chunk path hpwd hlen hnames es' s' chunk' hs' hdir hcwd hargs hanswer
    obtain ⟨l, rfl, hplace⟩ := pwd_names env hpwd hlen hnames
    obtain ⟨hlogged', hhome⟩ : s'.conn.authenticated = true ∧ s'.home = s.home := hs' ▸ run_home env es' hlogged
    have hroot : placeOf s'.proc.root = placeOf s.proc.root := hhome
    rw [hplace, ← hroot] at hdir ⊢
    have hback : cwdPlace env (.controlRead chunk') s' = some (placeOf s'.proc.root ++ l) := by
      simp only [cwdPlace, hcwd, hargs, if_pos hanswer]
      exact congrArg (Option.map Prod.snd) (cwd_back hdir hlen)
    rw [step_cwd env _ hlogged', hback, Option.getD_some]

/-- alice makes a directory and goes there; -/
def departs : List Event := [.controlRead (ascii "MKD x\r\n"), .controlRead (ascii "CWD x\r\n")]

/-- she asks where she is, makes another one, goes there, and removes it. She can stay. -/
def leaves : List Event :=
  [.controlRead (ascii "PWD\r\n"), .controlRead (ascii "MKD y\r\n"), .controlRead (ascii "CWD y\r\n"),
    .controlRead (ascii "RMD /x/y\r\n"), .controlRead (ascii "CWD .\r\n")]

/-- By the name she was given she finds back. -/
theorem mansion_back : placeOf (step (onStore mansionEnv) (.controlRead (ascii "CWD /x\r\n"))
      (run (step (onStore mansionEnv)) leaves
        (run (step (onStore mansionEnv)) departs (mansionSession (ascii "root") [])))).proc.cwd =
    placeOf (run (step (onStore mansionEnv)) departs (mansionSession (ascii "root") [])).proc.cwd :=
  (cwd_as_answered mansionEnv (mansionSession (ascii "root") []) (by decide +kernel) departs _ rfl).2.2 (ascii "PWD\r\n")
    (ascii "/x") (by decide +kernel) (by decide) (by decide +kernel) leaves _ (ascii "CWD /x\r\n") rfl
    (by decide +kernel) (by decide +kernel) (by decide +kernel) (by decide +kernel)

end Session

end CftpServer
