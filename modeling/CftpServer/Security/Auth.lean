import CftpServer.Session.Env

/-!
# Login and path checks (`security/auth.c`, `security/security.c`)

`authenticateAndSwitchUser` checks the password, then makes four privileged calls, each of which can fail. Nothing is
undone on a failure: `failed_login_keeps_process_iff` says exactly when a failed login leaves the process as it was.
-/

namespace CftpServer.Security

open CLib

variable {σ : Type} (env : Env σ)

/-- `is_path_safe`: no `..` anywhere in the path. -/
def isPathSafe (params : Bytes) : Bool :=
  if params.length > 0 then !strstr params (ascii "..") else true

/-- `user_exists`: the name to remember, if there is such a user; names that start with `root` are refused.
`strncpy` keeps the first 256 bytes. -/
def userExists (s : σ) (p : Proc) (username : Bytes) : Option Bytes :=
  if !strncmpEq (ascii "root").length username (ascii "root") && (env.getpwnam s p.root username).isSome then
    some (username.take 256)
  else none

/-- What `authenticate_and_switch_user` returns, the process after it, and `error_buf`. -/
structure AuthResult where
  ok : Bool
  proc : Proc
  errorBuf : Bytes
deriving DecidableEq, Repr

/-- A failure exit: the message with the user name in it, cut to `error_buf`. -/
def failAuth (p : Proc) (before username after : Bytes) : AuthResult :=
  ⟨false, p, cut 256 (before ++ username ++ after)⟩

/-- The process after a successful `chroot`, `chdir`, `setgid`, `setuid`. -/
def chrootTo (s : σ) (p : Proc) (path : Bytes) : Proc := { p with root := env.directory s p path }
def chdirTo (s : σ) (p : Proc) (path : Bytes) : Proc := { p with cwd := env.directory s p path }
def setgidTo (p : Proc) (gid : Nat) : Proc := { p with gid := gid }
def setuidTo (p : Proc) (uid : Nat) : Proc := { p with uid := uid }

/-- The part after the password check: the jail and the identity of the user. -/
def switchUser (s : σ) (p : Proc) (username : Bytes) (pwd : Passwd) : AuthResult :=
  if env.chroot s p pwd.pwDir then
    let p₁ := chrootTo env s p pwd.pwDir
    if env.chdir s p₁ (ascii "/") then
      let p₂ := chdirTo env s p₁ (ascii "/")
      if env.setgid s p₂ pwd.pwGid then
        let p₃ := setgidTo p₂ pwd.pwGid
        if env.setuid s p₃ pwd.pwUid then
          ⟨true, setuidTo p₃ pwd.pwUid,
            cut 256 (ascii "230 User '" ++ username ++ ascii "' authenticated successfully\r\n")⟩
        else failAuth p₃ (ascii "530 permission denied for '") username (ascii "'\r\n")
      else failAuth p₂ (ascii "530 permission denied for '") username (ascii "'\r\n")
    else failAuth p₁ (ascii "530 chdir failed for '") username (ascii "'\r\n")
  else failAuth p (ascii "530 chroot failed for '") username (ascii "'\r\n")

/-- `authenticate_and_switch_user`. -/
def authenticateAndSwitchUser (s : σ) (p : Proc) (username password : Bytes) : AuthResult :=
  match env.getpwnam s p.root username with
  | none => failAuth p (ascii "530 User '") username (ascii "' not found\r\n")
  | some pwd =>
    match env.getspnam s p.root username with
    | none => failAuth p (ascii "530 User '") username (ascii "' not found\r\n")
    | some shadowEntry =>
      let encryptedPasswd := env.crypt password shadowEntry.spPwdp
      if encryptedPasswd ≠ shadowEntry.spPwdp then
        failAuth p (ascii "530 Incorrect password for user '") username (ascii "'\r\n")
      else switchUser env s p username pwd

/-! ## Failed logins -/

/-- The user exists in both files and the password is theirs. -/
def CredentialsOk (s : σ) (p : Proc) (username password : Bytes) (pwd : Passwd) : Prop :=
  env.getpwnam s p.root username = some pwd ∧
    ∃ shadowEntry, env.getspnam s p.root username = some shadowEntry ∧
      env.crypt password shadowEntry.spPwdp = shadowEntry.spPwdp

/-- The process keeps its root directory, its working directory and its identity; the next password is checked against
the same files. -/
structure Kept (p p' : Proc) : Prop where
  root : p'.root = p.root
  cwd : p'.cwd = p.cwd
  gid : p'.gid = p.gid
  uid : p'.uid = p.uid
  passwd : ∀ (s : σ) (username : Bytes), env.getpwnam s p'.root username = env.getpwnam s p.root username
  shadow : ∀ (s : σ) (username : Bytes), env.getspnam s p'.root username = env.getspnam s p.root username

/-- The calls that succeed before the first one that fails change nothing: the home of the user is the root directory
already, the working directory too when `chdir` is among them, and the group is the user's when `setgid` is. -/
structure SwitchKeeps (s : σ) (p : Proc) (pwd : Passwd) : Prop where
  chdir : env.chroot s p pwd.pwDir → ¬ env.chdir s (chrootTo env s p pwd.pwDir) (ascii "/") →
    env.directory s p pwd.pwDir = p.root
  setgid : env.chroot s p pwd.pwDir → env.chdir s (chrootTo env s p pwd.pwDir) (ascii "/") →
    ¬ env.setgid s (chdirTo env s (chrootTo env s p pwd.pwDir) (ascii "/")) pwd.pwGid →
    env.directory s p pwd.pwDir = p.root ∧ p.cwd = p.root
  setuid : env.chroot s p pwd.pwDir → env.chdir s (chrootTo env s p pwd.pwDir) (ascii "/") →
    env.setgid s (chdirTo env s (chrootTo env s p pwd.pwDir) (ascii "/")) pwd.pwGid →
    ¬ env.setuid s (setgidTo (chdirTo env s (chrootTo env s p pwd.pwDir) (ascii "/")) pwd.pwGid) pwd.pwUid →
    env.directory s p pwd.pwDir = p.root ∧ p.cwd = p.root ∧ pwd.pwGid = p.gid

section Failed

variable {env} {s : σ} {p p' : Proc} {username password : Bytes} {pwd : Passwd}

theorem kept_iff : Kept env p p' ↔ p'.root = p.root ∧ p'.cwd = p.cwd ∧ p'.gid = p.gid ∧ p'.uid = p.uid := by
  constructor
  · intro h
    exact ⟨h.root, h.cwd, h.gid, h.uid⟩
  · rintro ⟨hr, hc, hg, hu⟩
    exact ⟨hr, hc, hg, hu, fun _ _ => by rw [hr], fun _ _ => by rw [hr]⟩

@[simp] theorem kept_refl : Kept env p p := kept_iff.mpr ⟨rfl, rfl, rfl, rfl⟩

/-- `chdir("/")` in the jail goes to its root. -/
theorem chdirTo_chrootTo : chdirTo env s (chrootTo env s p pwd.pwDir) (ascii "/") =
    { p with root := env.directory s p pwd.pwDir, cwd := env.directory s p pwd.pwDir } := by
  simp [chdirTo, chrootTo, Env.directory]

/-- A failure after the password check. -/
theorem switchUser_kept_iff :
    ((switchUser env s p username pwd).ok = false → Kept env p (switchUser env s p username pwd).proc) ↔
      SwitchKeeps env s p pwd := by
  simp only [switchUser]
  by_cases h₁ : env.chroot s p pwd.pwDir = true
  · rw [if_pos h₁]
    by_cases h₂ : env.chdir s (chrootTo env s p pwd.pwDir) (ascii "/") = true
    · rw [if_pos h₂]
      by_cases h₃ : env.setgid s (chdirTo env s (chrootTo env s p pwd.pwDir) (ascii "/")) pwd.pwGid = true
      · rw [if_pos h₃]
        by_cases h₄ : env.setuid s
            (setgidTo (chdirTo env s (chrootTo env s p pwd.pwDir) (ascii "/")) pwd.pwGid) pwd.pwUid = true
        · rw [if_pos h₄]
          exact ⟨fun _ => ⟨fun _ h => absurd h₂ h, fun _ _ h => absurd h₃ h, fun _ _ _ h => absurd h₄ h⟩,
            fun _ h => by cases h⟩
        · rw [if_neg h₄, chdirTo_chrootTo]
          simp only [failAuth, setgidTo, kept_iff]
          refine ⟨fun h => ⟨fun _ h' => absurd h₂ h', fun _ _ h' => absurd h₃ h', fun _ _ _ _ => ?_⟩, fun h _ => ?_⟩
          · obtain ⟨hr, hc, hg, -⟩ := h trivial
            exact ⟨hr, hc.symm.trans hr, hg⟩
          · obtain ⟨hr, hc, hg⟩ := h.setuid h₁ h₂ h₃ h₄
            exact ⟨hr, hr.trans hc.symm, hg, trivial⟩
      · rw [if_neg h₃, chdirTo_chrootTo]
        simp only [failAuth, kept_iff]
        refine ⟨fun h => ⟨fun _ h' => absurd h₂ h', fun _ _ _ => ?_, fun _ _ h' => absurd h' h₃⟩, fun h _ => ?_⟩
        · obtain ⟨hr, hc, -⟩ := h trivial
          exact ⟨hr, hc.symm.trans hr⟩
        · obtain ⟨hr, hc⟩ := h.setgid h₁ h₂ h₃
          exact ⟨hr, hr.trans hc.symm, trivial, trivial⟩
    · rw [if_neg h₂]
      simp only [failAuth, chrootTo, kept_iff]
      refine ⟨fun h => ⟨fun _ _ => (h trivial).1, fun _ h' => absurd h' h₂, fun _ h' => absurd h' h₂⟩, fun h _ => ?_⟩
      exact ⟨h.chdir h₁ h₂, trivial, trivial, trivial⟩
  · rw [if_neg h₁]
    exact ⟨fun _ => ⟨fun h => absurd h h₁, fun h => absurd h h₁, fun h => absurd h h₁⟩, fun _ _ => kept_refl⟩

/-- **Failed logins.** A failed login leaves the process as it was exactly when, for valid credentials, the calls made
before the one that failed had nothing to change. -/
theorem failed_login_keeps_process_iff :
    ((authenticateAndSwitchUser env s p username password).ok = false →
        Kept env p (authenticateAndSwitchUser env s p username password).proc) ↔
      ∀ pwd, CredentialsOk env s p username password pwd → SwitchKeeps env s p pwd := by
  cases hp : env.getpwnam s p.root username with
  | none => simp [authenticateAndSwitchUser, hp, failAuth, CredentialsOk]
  | some pwd =>
    cases hs : env.getspnam s p.root username with
    | none => simp [authenticateAndSwitchUser, hp, hs, failAuth, CredentialsOk]
    | some sp =>
      by_cases hc : env.crypt password sp.spPwdp = sp.spPwdp
      · simp [authenticateAndSwitchUser, hp, hs, hc, CredentialsOk, switchUser_kept_iff]
      · simp [authenticateAndSwitchUser, hp, hs, hc, failAuth, CredentialsOk]

/-! ## Logins -/

/-- A login that succeeds: the password is right, and the process gets the directory and the identity of the user. -/
theorem authenticateAndSwitchUser_ok (h : (authenticateAndSwitchUser env s p username password).ok = true) :
    ∃ pwd, CredentialsOk env s p username password pwd ∧
      (authenticateAndSwitchUser env s p username password).proc =
        ⟨env.directory s p pwd.pwDir, env.directory s p pwd.pwDir, pwd.pwUid, pwd.pwGid, p.groups⟩ := by
  unfold authenticateAndSwitchUser at h ⊢
  split at h
  · cases h
  · rename_i pwd hpwd
    split at h
    · cases h
    · rename_i sp hsp
      simp only [ne_eq] at h ⊢
      by_cases hc : env.crypt password sp.spPwdp = sp.spPwdp
      · simp only [hc, not_true_eq_false, if_false] at h ⊢
        refine ⟨pwd, ⟨hpwd, sp, hsp, hc⟩, ?_⟩
        unfold switchUser at h ⊢
        simp only [chdirTo_chrootTo] at h ⊢
        split at h
        · split at h
          · split at h
            · split at h
              · simp only [*, if_true]
                rfl
              · cases h
            · cases h
          · cases h
        · cases h
      · simp only [hc, not_false_eq_true, if_true] at h
        cases h

/-- No login touches the supplementary groups. -/
theorem authenticateAndSwitchUser_groups :
    (authenticateAndSwitchUser env s p username password).proc.groups = p.groups := by
  unfold authenticateAndSwitchUser
  split
  · rfl
  · split
    · rfl
    · simp only [switchUser]
      split
      · rfl
      · repeat' split
        all_goals rfl

/-- `setuid` fails, after the process has been put into the home of the user. -/
theorem failed_setuid_keeps_jail :
    ¬ ∀ (σ : Type) (env : Env σ) (s : σ) (p : Proc) (username password : Bytes),
      (authenticateAndSwitchUser env s p username password).ok = false →
        Kept env p (authenticateAndSwitchUser env s p username password).proc := by
  intro h
  have hk := h Unit { Env.permissive with
    getpwnam := fun _ _ _ => some ⟨1000, 1000, ascii "/home/alice"⟩
    getspnam := fun _ _ _ => some ⟨ascii "$6$ab$Xy"⟩
    setuid := fun _ _ _ => false } () ⟨ascii "/", ascii "/", 0, 0, []⟩ (ascii "alice") (ascii "secret") (by decide)
  exact absurd hk.root (by decide)

end Failed

end CftpServer.Security
