import CftpServer.Session.Login

/-!
# Who is logged in

The name of USER waits in the connection until PASS, and `user_exists` writes it only when it accepts the name; PASS
then takes the identity of the entry with that name.

* `login_of_last_user_iff`: when PASS logs in the user of the last USER line
* `session_unprivileged_iff`: when a session that is logged in runs without the privileges of the parent
-/

namespace CftpServer.Session

open CLib Command Security Runs

variable {σ : Type} (env : Env σ)

/-! ## What changes it -/

theorem dropListener_identity (s : Session σ) : (dropListener env s).identity = s.identity := by
  unfold dropListener listenerFree
  split
  · dsimp only
    split <;> rfl
  · rfl

theorem timeoutEventFree_identity (s : Session σ) : (timeoutEventFree env s).identity = s.identity := by
  unfold timeoutEventFree
  split
  · rfl
  · split <;> rfl

theorem portLoop_identity (fuel : Nat) : ∀ (port : Nat) (s : Session σ),
    (portLoop env fuel port s).2.identity = s.identity := by
  induction fuel with
  | zero => intro port s; rfl
  | succ fuel ih =>
    intro port s
    have htry : (tryPort env port s).identity = s.identity := by
      unfold tryPort
      split <;> rfl
    unfold portLoop
    split
    · dsimp only
      split
      · exact htry
      · exact (ih _ _).trans htry
    · rfl

theorem andThen_identity {f : Session σ → Session σ} (hf : ∀ s, (f s).identity = s.identity) (s : Session σ) :
    (s.andThen f).identity = s.identity := by
  unfold Session.andThen
  split
  · rfl
  · exact hf s

theorem dataConnectionListenerConfig_identity (extended : Bool) (s : Session σ) :
    (dataConnectionListenerConfig env extended s).identity = s.identity := by
  unfold dataConnectionListenerConfig
  refine (andThen_identity (fun s => ?_) _).trans (dropListener_identity env s)
  split
  · refine (andThen_identity (fun s => ?_) _).trans (portLoop_identity env _ _ s)
    unfold announcePort
    split
    · rfl
    · split <;> rfl
  · rfl

theorem dataConnectionAcceptCb_identity (listener : Nat) (fd : Int) (addr : SockAddr) (s : Session σ) :
    (dataConnectionAcceptCb env listener fd addr s).identity = s.identity := by
  have hfree : (listenerFree env listener s).identity = s.identity := by
    unfold listenerFree
    split <;> rfl
  have hnew : ∀ s : Session σ, (newDataBev env s).identity = s.identity := by
    intro s
    unfold newDataBev
    split <;> rfl
  unfold dataConnectionAcceptCb
  split
  · rfl
  · refine (andThen_identity (fun s => ?_) _).trans hfree
    dsimp only
    split
    · exact hnew _
    · exact (timeoutEventFree_identity env _).trans (hnew _)

/-- **What one event does to the identity**: only PROT P, an accepted USER and PASS change it. -/
theorem step_identity (e : Event) (s : Session σ) :
    (step env e s).identity = s.identity ∨ ∃ chunk, e = .controlRead chunk ∧ chunk ≠ [] ∧ s.ended = none ∧
      ((handlerOf s chunk = some .prot ∧ (step env e s).identity = { s.identity with dataTlsRequired := true }) ∨
        (handlerOf s chunk = some .user ∧ ∃ arg username, (commandOf s chunk).args = [arg] ∧
          userExists env s.os s.proc arg = some username ∧
          (step env e s).identity = { s.identity with username := username }) ∨
        (handlerOf s chunk = some .pass ∧ ∃ arg, (commandOf s chunk).args = [arg] ∧
          step env e s = cftpPassAuthenticated env (commandOf s chunk) (received s chunk))) := by
  rcases step_moves env e s with hm | ⟨hs, hsp⟩
  · exact .inl (congrArg Fixed.toIdentity hm.fixed)
  · generalize step env e s = s' at hsp ⊢
    cases hsp with
    | prot hne ha hargs => exact .inr ⟨_, rfl, hne, hs, .inl ⟨ha, rfl⟩⟩
    | user hne ha hargs hu => exact .inr ⟨_, rfl, hne, hs, .inr (.inl ⟨ha, _, _, hargs, hu, rfl⟩)⟩
    | pass hne ha hargs => exact .inr ⟨_, rfl, hne, hs, .inr (.inr ⟨ha, _, hargs, rfl⟩)⟩
    | passive extended => exact .inl (dataConnectionListenerConfig_identity env extended _)
    | accept => exact .inl (dataConnectionAcceptCb_identity env _ _ _ _)
    | timer => exact .inl (dropListener_identity env _)

/-- PASS with an argument: the login, then the reply and, if it succeeds, the end of the login timer. -/
theorem cftpPassAuthenticated_identity {cmd : CftpCommand} {arg : Bytes} (hargs : cmd.args = [arg]) (s : Session σ) :
    (cftpPassAuthenticated env cmd s).identity = (attempted env arg s).identity := by
  rw [cftpPassAuthenticated, hargs]
  dsimp only
  split
  · rename_i hok
    rw [timeoutEventFree_identity]
    simp [identity, attempted, hok, sendControlMessage, emit]
  · rename_i hok
    simp [identity, attempted, hok, sendControlMessage, emit, loggedIn]

/-! ## The name -/

/-- The session that reads a USER line with one argument, and the argument. -/
def userLine (e : Event) (s : Session σ) : Option (Session σ × Bytes) :=
  match e with
  | .controlRead chunk =>
    match commandOf s chunk with
    | ⟨command, [arg]⟩ => if command = ascii "USER" ∧ chunk ≠ [] ∧ s.ended = none then some (s, arg) else none
    | _ => none
  | _ => none

/-- The last USER line of a run. -/
def lastUser (es : List Event) (s : Session σ) : Option (Session σ × Bytes) := latest (step env) userLine es s none

/-- `user_exists` accepts the name: it does not start with `root`, and there is such a user. -/
def Accepted (s : Session σ) (name : Bytes) : Prop :=
  strncmpEq (ascii "root").length name (ascii "root") = false ∧ (env.getpwnam s.os s.proc.root name).isSome = true

/-- A step logs `name` in: its password was checked, and the process has the identity and the home of its entry. -/
def LogsIn (name : Bytes) (s s' : Session σ) : Prop :=
  ∃ password pwd, Effect.authenticate name password true ∈ newEffects s s' ∧
    CredentialsOk env s.os s.proc name password pwd ∧ s'.proc.uid = pwd.pwUid ∧ s'.proc.gid = pwd.pwGid ∧
    s'.proc.root = env.directory s.os s.proc pwd.pwDir

/-- The name the connection holds after such a line, if any. -/
def remembered : Option (Session σ × Bytes) → Bytes
  | none => []
  | some (s, arg) => (userExists env s.os s.proc arg).getD s.conn.username

section

variable {s : Session σ} {e : Event}

theorem userLine_eq_some {s₁ : Session σ} {arg : Bytes} (h : userLine e s = some (s₁, arg)) :
    s₁ = s ∧ ∃ chunk, e = .controlRead chunk ∧ chunk ≠ [] ∧ s.ended = none ∧
      commandOf s chunk = ⟨ascii "USER", [arg]⟩ := by
  unfold userLine at h
  split at h
  · rename_i chunk
    split at h
    · rename_i command arg' hcmd
      split at h
      · rename_i hc
        obtain ⟨rfl, hne, hs⟩ := hc
        simp only [Option.some.injEq, Prod.mk.injEq] at h
        obtain ⟨rfl, rfl⟩ := h
        exact ⟨rfl, chunk, rfl, hne, hs, hcmd⟩
      · cases h
    · cases h
  · cases h

/-- The rows of USER. -/
theorem actionFor_user {command : Bytes} (h : actionFor command false = some .user) : command = ascii "USER" := by
  have hrows : ∀ row ∈ commandActions, row.nonAuthenticatedCb = .user → row.action = ascii "USER" := by decide
  simp only [actionFor, lookup_registry, scan, Option.map_eq_some_iff] at h
  obtain ⟨row, hrow, hcb⟩ := h
  have hname : row.action = command := by simpa using List.find?_some hrow
  rw [← hname]
  exact hrows row (List.mem_of_find?_eq_some hrow) hcb

theorem actionFor_USER : actionFor (ascii "USER") false = some .user := by
  rw [actionFor, lookup_registry]
  decide

/-- What a USER line leaves in the connection. -/
theorem step_userLine {s₁ : Session σ} {arg : Bytes} (ha : s.conn.authenticated = false)
    (h : userLine e s = some (s₁, arg)) : (step env e s).conn.username = remembered env (some (s₁, arg)) := by
  obtain ⟨rfl, chunk, rfl, hne, hs, hcmd⟩ := userLine_eq_some h
  have hh : handlerOf s₁ chunk = some .user := by
    rw [handlerOf, hcmd, ha]
    exact actionFor_USER
  have hstep :
      step env (.controlRead chunk) s₁ = cftpUserAuthenticated env (commandOf s₁ chunk) (received s₁ chunk) := by
    rw [step_handle hs, handle, if_neg hne]
    change runCommand env chunk s₁ = _
    rw [runCommand, hh]
    rfl
  rw [hstep, hcmd, cftpUserAuthenticated, remembered]
  dsimp only
  split
  · rename_i username hu
    change userExists env s₁.os s₁.proc arg = some username at hu
    rw [hu]
    rfl
  · rename_i hu
    change userExists env s₁.os s₁.proc arg = none at hu
    rw [hu]
    rfl

/-- Nothing else changes the name before the login. -/
theorem step_no_userLine (ha : s.conn.authenticated = false) (h : userLine e s = none) :
    (step env e s).conn.username = s.conn.username := by
  rcases step_identity env e s with hi | ⟨chunk, rfl, hne, hs, hcase⟩
  · exact congrArg Identity.username hi
  · rcases hcase with ⟨-, hi⟩ | ⟨hh, arg, username, hargs, -, -⟩ | ⟨-, arg, hargs, heq⟩
    · exact congrArg Identity.username hi
    · rw [handlerOf, ha] at hh
      have hcmd : commandOf s chunk = ⟨ascii "USER", [arg]⟩ := by rw [← actionFor_user hh, ← hargs]
      simp [userLine, hcmd, hne, hs] at h
    · rw [heq]
      exact congrArg Identity.username (cftpPassAuthenticated_identity env hargs _)

/-- A login is that of the name the connection holds. -/
theorem step_logsIn (hb : s.conn.authenticated = false) (ha : (step env e s).conn.authenticated = true) (name : Bytes) :
    LogsIn env name s (step env e s) ↔ name = s.conn.username := by
  have hno : ¬ (step env e s).identity.authenticated = s.identity.authenticated := fun h =>
    Bool.false_ne_true (hb.symm.trans (h.symm.trans ha))
  rcases step_identity env e s with hi | ⟨chunk, rfl, -, -, ⟨-, hi⟩ | ⟨-, arg, username, -, -, hi⟩ |
    ⟨-, arg, hargs, heq⟩⟩
  · exact absurd (by rw [hi]) hno
  · exact absurd (by rw [hi]) hno
  · exact absurd (by rw [hi]) hno
  · have hi := cftpPassAuthenticated_identity env hargs (received s chunk)
    rw [← heq] at hi
    have hok : (login env arg s).ok = true := by
      have hauth :
          (step env (.controlRead chunk) s).conn.authenticated = (s.conn.authenticated || (login env arg s).ok) :=
        congrArg Identity.authenticated hi
      rw [hb, Bool.false_or] at hauth
      exact hauth.symm.trans ha
    obtain ⟨pwd, hcred, hproc⟩ := authenticateAndSwitchUser_ok hok
    obtain ⟨d, hlog, hd⟩ : ∃ d, newEffects s (step env (.controlRead chunk) s) =
        .authenticate s.conn.username arg true :: d ∧ ∀ e ∈ d,
          Quiet (fun _ => True) True (attempted env arg (received s chunk)) e := by
      rcases cftpPassAuthenticated_cases (s := received s chunk) env (commandOf s chunk) with ⟨arg', harg', hx⟩ | hx
      · rw [hargs, List.singleton_inj] at harg'
        subst harg'
        obtain ⟨d, hd, hq⟩ := hx.log
        refine ⟨d, newEffects_eq ?_, hq⟩
        rw [heq, hd]
        simp [attempted, loggedIn, emit, received, login] at hok ⊢
        exact hok
      · have hsame := hx.authenticated
        rw [← heq] at hsame
        exact absurd hsame hno
    constructor
    · rintro ⟨password, pwd', hmem, -⟩
      rw [hlog, List.mem_cons] at hmem
      rcases hmem with hmem | hmem
      · cases hmem
        rfl
      · exact (hd _ hmem).elim
    · rintro rfl
      refine ⟨arg, pwd, by rw [hlog]; exact List.mem_cons_self, hcred, ?_, ?_, ?_⟩
      · exact (congrArg Identity.uid hi).trans (congrArg Proc.uid hproc)
      · exact (congrArg Identity.gid hi).trans (congrArg Proc.gid hproc)
      · exact (congrArg Identity.root hi).trans (congrArg Proc.root hproc)

end

/-- One event and the name the connection holds. -/
theorem step_remembered (e : Event) (s : Session σ) (l : Option (Session σ × Bytes))
    (h : s.conn.authenticated = false → s.conn.username = remembered env l)
    (hs : (step env e s).conn.authenticated = false) :
    (step env e s).conn.username = remembered env ((userLine e s).or l) := by
  have ha : s.conn.authenticated = false := by
    rw [← Bool.not_eq_true]
    intro ht
    exact absurd (step_afterLogin env e ht).1 (by rw [hs]; decide)
  cases hu : userLine e s with
  | none => rw [step_no_userLine env ha hu, Option.none_or]; exact h ha
  | some u => rw [step_userLine env ha hu, Option.some_or]

theorem reached_remembered (addr : SockAddr) (proc : Proc) (os : σ) (es : List Event)
    (h : (reached env addr proc os es).conn.authenticated = false) :
    (reached env addr proc os es).conn.username = remembered env (lastUser env es (start env addr proc os)) :=
  run_inv_latest (P := fun (s : Session σ) l => s.conn.authenticated = false → s.conn.username = remembered env l)
    (step_remembered env) es (fun _ => rfl) h

theorem userExists_of_accepted {s : Session σ} {name : Bytes} (h : Accepted env s name) :
    userExists env s.os s.proc name = some (name.take 256) := by
  unfold userExists
  rw [h.1, h.2]
  rfl

theorem userExists_of_not_accepted {s : Session σ} {name : Bytes} (h : ¬ Accepted env s name) :
    userExists env s.os s.proc name = none := by
  refine if_neg fun hc => h ?_
  simpa [Accepted] using hc

/-- **The user of a login.** PASS logs in the user named by the last USER line exactly when that name was accepted and
fits the 256 bytes it is kept in, or was refused but is the one the connection held already. -/
theorem login_of_last_user_iff (addr : SockAddr) (proc : Proc) (os : σ) (es : List Event) (e : Event)
    (hb : (reached env addr proc os es).conn.authenticated = false)
    (ha : (step env e (reached env addr proc os es)).conn.authenticated = true) :
    (∃ s₁ arg, lastUser env es (start env addr proc os) = some (s₁, arg) ∧
        LogsIn env arg (reached env addr proc os es) (step env e (reached env addr proc os es))) ↔
      ∃ s₁ arg, lastUser env es (start env addr proc os) = some (s₁, arg) ∧
        ((Accepted env s₁ arg ∧ arg.length ≤ 256) ∨ (¬ Accepted env s₁ arg ∧ s₁.conn.username = arg)) := by
  have hname := reached_remembered env addr proc os es hb
  refine exists_congr fun s₁ => exists_congr fun arg => and_congr_right fun hlast => ?_
  rw [step_logsIn env hb ha, hname, hlast, remembered]
  by_cases hacc : Accepted env s₁ arg
  · rw [userExists_of_accepted env hacc, Option.getD_some, eq_comm, List.take_eq_self_iff]
    simp [hacc]
  · rw [userExists_of_not_accepted env hacc, Option.getD_none, eq_comm]
    simp [hacc]

/-- USER alice, PASS. -/
theorem alice_logs_in :
    ∃ s₁ arg, lastUser Env.permissive [.controlRead (ascii "USER alice\r\n")]
        (start Env.permissive (.inet 127 0 0 1) ⟨ascii "/", ascii "/", 0, 0, []⟩ ()) = some (s₁, arg) ∧
      LogsIn Env.permissive arg
        (reached Env.permissive (.inet 127 0 0 1) ⟨ascii "/", ascii "/", 0, 0, []⟩ ()
          [.controlRead (ascii "USER alice\r\n")])
        (step Env.permissive (.controlRead (ascii "PASS x\r\n"))
          (reached Env.permissive (.inet 127 0 0 1) ⟨ascii "/", ascii "/", 0, 0, []⟩ ()
            [.controlRead (ascii "USER alice\r\n")])) := by
  refine (login_of_last_user_iff Env.permissive _ _ _ _ _ (by decide) (by decide)).mpr ⟨_, ascii "alice", rfl, .inl ?_⟩
  exact ⟨⟨by decide, rfl⟩, by decide⟩

/-- USER alice, then USER root, which is refused, and PASS: alice is logged in. -/
theorem refused_user_logs_in_earlier :
    ¬ ∀ (σ : Type) (env : Env σ) (addr : SockAddr) (proc : Proc) (os : σ) (es : List Event) (e : Event),
      (reached env addr proc os es).conn.authenticated = false →
      (step env e (reached env addr proc os es)).conn.authenticated = true →
      ∃ s₁ arg, lastUser env es (start env addr proc os) = some (s₁, arg) ∧
        LogsIn env arg (reached env addr proc os es) (step env e (reached env addr proc os es)) := by
  intro h
  have hb : (reached Env.permissive (.inet 127 0 0 1) ⟨ascii "/", ascii "/", 0, 0, []⟩ ()
      [.controlRead (ascii "USER alice\r\n"), .controlRead (ascii "USER root\r\n")]).conn.authenticated = false := by
    decide
  have ha : (step Env.permissive (.controlRead (ascii "PASS x\r\n"))
      (reached Env.permissive (.inet 127 0 0 1) ⟨ascii "/", ascii "/", 0, 0, []⟩ ()
        [.controlRead (ascii "USER alice\r\n"), .controlRead (ascii "USER root\r\n")])).conn.authenticated = true := by
    decide
  obtain ⟨s₁, arg, hlast, hin⟩ := h Unit Env.permissive _ _ () _ _ hb ha
  have harg : (lastUser Env.permissive [.controlRead (ascii "USER alice\r\n"), .controlRead (ascii "USER root\r\n")]
      (start Env.permissive (.inet 127 0 0 1) ⟨ascii "/", ascii "/", 0, 0, []⟩ ())).map Prod.snd =
        some (ascii "root") := by
    decide
  rw [hlast, Option.map_some, Option.some.injEq] at harg
  have hname := (step_logsIn Env.permissive hb ha arg).mp hin
  rw [show arg = ascii "root" from harg] at hname
  exact absurd hname (by decide)

/-! ## The privileges -/

/-- The entry of the user a step logs in, with the name. -/
def loginEntry (e : Event) (s : Session σ) : Option (Bytes × Passwd) :=
  if s.conn.authenticated = false ∧ (step env e s).conn.authenticated = true then
    (env.getpwnam s.os s.proc.root s.conn.username).map fun pwd => (s.conn.username, pwd)
  else none

/-- The user a run has logged in. -/
def loggedInAs (es : List Event) (s : Session σ) : Option (Bytes × Passwd) :=
  latest (step env) (loginEntry env) es s none

/-- A group of the user: the one of the entry, or one that the group database has the user in. -/
def GroupOf (member : Bytes → Nat → Prop) (user : Bytes × Passwd) (g : Nat) : Prop := g = user.2.pwGid ∨ member user.1 g

/-- The process is not root's, and all its groups are groups of the user. -/
structure Unprivileged (member : Bytes → Nat → Prop) (user : Bytes × Passwd) (p : Proc) : Prop where
  uid : p.uid ≠ 0
  gid : GroupOf member user p.gid
  groups : ∀ g ∈ p.groups, GroupOf member user g

/-- The process has the ids of the entry, and the supplementary groups it was started with. -/
structure RunsAs (groups : List Nat) (s : Session σ) (user : Option (Bytes × Passwd)) : Prop where
  groups : s.proc.groups = groups
  ids : s.conn.authenticated = true → ∃ u, user = some u ∧ s.proc.uid = u.2.pwUid ∧ s.proc.gid = u.2.pwGid

/-- No event touches the supplementary groups. -/
theorem step_groups (e : Event) (s : Session σ) : (step env e s).proc.groups = s.proc.groups := by
  rcases step_identity env e s with hi | ⟨chunk, rfl, -, -, ⟨-, hi⟩ | ⟨-, arg, username, -, -, hi⟩ |
    ⟨-, arg, hargs, heq⟩⟩
  · exact congrArg Identity.groups hi
  · exact congrArg Identity.groups hi
  · exact congrArg Identity.groups hi
  · rw [heq]
    exact (congrArg Identity.groups (cftpPassAuthenticated_identity env hargs _)).trans authenticateAndSwitchUser_groups

/-- After the login no event touches the ids. -/
theorem step_ids {s : Session σ} (e : Event) (hs : s.conn.authenticated = true) :
    (step env e s).proc.uid = s.proc.uid ∧ (step env e s).proc.gid = s.proc.gid := by
  rcases step_identity env e s with hi | ⟨chunk, rfl, -, -, ⟨-, hi⟩ | ⟨ha, -⟩ | ⟨ha, -⟩⟩
  · exact ⟨congrArg Identity.uid hi, congrArg Identity.gid hi⟩
  · exact ⟨congrArg Identity.uid hi, congrArg Identity.gid hi⟩
  · rw [handlerOf, hs] at ha
    exact absurd rfl (actionFor_authenticated ha).1
  · rw [handlerOf, hs] at ha
    exact absurd rfl (actionFor_authenticated ha).2

theorem step_runsAs {groups : List Nat} (e : Event) (s : Session σ) (l : Option (Bytes × Passwd))
    (h : RunsAs groups s l) : RunsAs groups (step env e s) ((loginEntry env e s).or l) where
  groups := (step_groups env e s).trans h.groups
  ids ha := by
    cases hs : s.conn.authenticated with
    | true =>
      obtain ⟨u, hu, huid, hgid⟩ := h.ids hs
      obtain ⟨huid', hgid'⟩ := step_ids env e hs
      refine ⟨u, ?_, huid'.trans huid, hgid'.trans hgid⟩
      rw [loginEntry, if_neg (by simp [hs]), Option.none_or, hu]
    | false =>
      obtain ⟨password, pwd, -, hcred, huid, hgid, -⟩ := (step_logsIn env hs ha s.conn.username).mpr rfl
      refine ⟨(s.conn.username, pwd), ?_, huid, hgid⟩
      rw [loginEntry, if_pos ⟨hs, ha⟩, hcred.1, Option.map_some, Option.some_or]

/-- **Privileges.** In every state of a session that is logged in, for every group database, the process is not root's
and has only groups of its user exactly when the entry of the user is not one of uid 0 and the groups the process was
started with are all groups of the user. -/
theorem session_unprivileged_iff (member : Bytes → Nat → Prop) (addr : SockAddr) (proc : Proc) (os : σ)
    (es : List Event)
    (h : (reached env addr proc os es).conn.authenticated = true) :
    ∃ user, loggedInAs env es (start env addr proc os) = some user ∧
      (Unprivileged member user (reached env addr proc os es).proc ↔
        user.2.pwUid ≠ 0 ∧ ∀ g ∈ proc.groups, GroupOf member user g) := by
  have hrun : RunsAs proc.groups (reached env addr proc os es) (loggedInAs env es (start env addr proc os)) :=
    run_inv_latest (step_runsAs env) es ⟨rfl, fun h => by cases h⟩
  obtain ⟨user, hu, huid, hgid⟩ := hrun.ids h
  refine ⟨user, hu, ?_⟩
  constructor
  · intro hp
    exact ⟨huid ▸ hp.uid, hrun.groups ▸ hp.groups⟩
  · rintro ⟨hne, hgroups⟩
    exact ⟨huid ▸ hne, .inl hgid, hrun.groups ▸ hgroups⟩

/-- A server without supplementary groups, and alice. -/
theorem alice_unprivileged :
    ∃ user, loggedInAs Env.permissive [.controlRead (ascii "USER alice\r\n"), .controlRead (ascii "PASS x\r\n")]
        (start Env.permissive (.inet 127 0 0 1) ⟨ascii "/", ascii "/", 0, 0, []⟩ ()) = some user ∧
      (Unprivileged (fun _ _ => False) user (aliceSession Env.permissive []).proc ↔
        user.2.pwUid ≠ 0 ∧ ∀ g ∈ ([] : List Nat), GroupOf (fun _ _ => False) user g) :=
  session_unprivileged_iff Env.permissive _ _ _ _ _ (by decide)

/-- A user of another name than root, with uid 0. -/
def uidZero : Env Unit := { Env.permissive with getpwnam := fun _ _ _ => some ⟨0, 1000, ascii "/"⟩ }

/-- Such a user gets a session with root's uid. -/
theorem uid_zero_keeps_root :
    ¬ ∀ (σ : Type) (env : Env σ) (member : Bytes → Nat → Prop) (addr : SockAddr) (proc : Proc) (os : σ)
      (es : List Event),
      (reached env addr proc os es).conn.authenticated = true →
      ∃ user, loggedInAs env es (start env addr proc os) = some user ∧
        Unprivileged member user (reached env addr proc os es).proc := by
  intro h
  obtain ⟨user, -, hp⟩ := h Unit uidZero (fun _ _ => False) (.inet 127 0 0 1) ⟨ascii "/", ascii "/", 0, 0, []⟩ ()
    [.controlRead (ascii "USER toor\r\n"), .controlRead (ascii "PASS x\r\n")] (by decide)
  exact hp.uid (by decide)

end CftpServer.Session
