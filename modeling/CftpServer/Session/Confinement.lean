import CftpServer.Session.History
import CftpServer.Session.Identity
import CftpServer.Session.Jail

/-!
# A client stays at home

The home of a client who is logged in is the root directory of the process.

* `session_confined`: before the login no file changes; after it the session works below the home, and whatever it
  does, outside the home everything is as it was
* `session_sees_home_only`: what a client who is logged in gets to see is a matter of what is in the home, of the files
  that are open, and of the two files from which the parent process has the names of users and groups
-/

namespace CftpServer.Session

open CLib FileTree Command Security Runs

/-- The directory a client who is logged in is at home in. -/
def home (s : Session System) : List Name := placeOf s.proc.root

section Runs

variable {env : Env Moment}

/-! ## Before the login -/

/-- No file has changed, and none is open. -/
structure Untouched (f : FileStore Name UInt8) (w : System) : Prop where
  files : w.files = f
  handles : ∀ fd, w.handles fd = none
  opening : w.opening = none

variable {f : FileStore Name UInt8} {home : List Name} {w w' : System} {p : Proc} {s s' : Session System}

theorem Untouched.after (env : Env Moment) (h : Untouched f w) (p : Proc) {e : Effect} (he : ∀ c, e ≠ .call c) :
    Untouched f (System.after env w p e) := by
  cases e with
  | call c => exact absurd rfl (he c)
  | store b tls fd bytes =>
    have hstore : w.store fd bytes = w := by rw [System.store, h.handles]
    exact ⟨(congrArg System.files hstore).trans h.files, fun fd => (congrFun (congrArg System.handles hstore) fd).trans
      (h.handles fd), (congrArg System.opening hstore).trans h.opening⟩
  | opened fd =>
    refine ⟨h.files, fun fd' => ?_, rfl⟩
    simp only [System.after, System.act, Function.update_apply, h.opening]
    split
    · rfl
    · exact h.handles fd'
  | closed fd =>
    refine ⟨h.files, fun fd' => ?_, h.opening⟩
    simp only [System.after, System.act, Function.update_apply]
    split
    · rfl
    · exact h.handles fd'
  | _ => exact ⟨h.files, h.handles, h.opening⟩

/-- One event before the login. -/
theorem step_untouched (e : Event) (ha : s.conn.authenticated = false) (hb : BeforeLogin s) (h : Untouched f s.os) :
    Untouched f (step (onStore env) e s).os := by
  have hb' := (step_beforeLogin (onStore env) e ha hb).1
  refine step_os (H := fun e => ∀ c, e ≠ .call c) e s (fun w p e h he _ => h.after env p he) (fun e' he' c hc => ?_) h
  exact hb'.log e' (List.mem_of_mem_drop he') (by rw [hc]; trivial)

/-! ## After the login -/

/-- The files below the home. -/
def filesOf (home : List Name) (f : FileStore Name UInt8) : Set Nat :=
  { i | ∃ l, home <+: l ∧ f.tree.node l = some .file ∧ f.number l = i }

/-- No file of the home has another name outside it. -/
def Apart (home : List Name) (f : FileStore Name UInt8) : Prop :=
  ∀ l, ¬ home <+: l → f.tree.node l = some .file → f.number l ∉ filesOf home f

/-- The system of a process at home, and one that is the same there, both as they were elsewhere. -/
def atHome (env : Env Moment) (home : List Name) (f : FileStore Name UInt8) : Coupling System System where
  left := onStore env
  right := onStore env
  calls := fun _ => True
  related := fun p _ _ v w => Homed home p ∧ ∃ K, System.Within home K v ∧
    (Apart home f → FileStore.SameOutside home K f v.files) ∧ System.Same home K v w
  outcomes := fun ⟨h, _, hv, _, hs⟩ => System.outcomes_congr env h hv hs
  fresh := id
  after := by
    rintro p n l v w e ⟨h, K, hv, hout, hs⟩ -
    obtain ⟨K', hv', hout', hs'⟩ := System.after_keeps env h hv e
    exact ⟨h, K', hv', fun happart => hout' f (hout happart), hs' w hs⟩
  chdir := by
    rintro p n l v w path ⟨h, K, hv, hout, hs⟩ - hok
    obtain ⟨K', hv', hout', hs'⟩ := System.after_keeps env h hv (.call (.chdir path))
    exact ⟨System.chdir_homed env h hok, K', hv', fun happart => hout' f (hout happart), hs' w hs⟩

/-- **One event after the login**, on two systems that are the same at home. -/
theorem step_atHome (e : Event) (ha : s.conn.authenticated = true) (h : (atHome env home f).Paired s s') :
    (atHome env home f).Paired (step (onStore env) e s) (step (onStore env) e s') := by
  refine Coupling.step_paired h e (fun chunk a _ hact => ⟨?_, fun _ _ => trivial⟩) fun _ _ _ _ _ _ _ _ _ _ => trivial
  exact actionFor_authenticated (by rw [← ha]; exact hact)

/-- Any number of events after the login. -/
theorem run_atHome (es : List Event) : ∀ {s s' : Session System}, s.conn.authenticated = true →
    (atHome env home f).Paired s s' →
      (atHome env home f).Paired (run (step (onStore env)) es s) (run (step (onStore env)) es s') := by
  induction es with
  | nil => exact fun _ h => h
  | cons e es ih => exact fun ha h => ih (step_afterLogin (onStore env) e ha).1 (step_atHome e ha h)

/-! ## Every run -/

theorem Untouched.atHome (h : Untouched f w) (hp : Homed home p) (n : Nat) (log : List Effect) :
    (atHome env home f).related p n log w w := by
  refine ⟨hp, filesOf home f, ⟨⟨fun l hl hfile => ⟨l, hl, ?_, ?_⟩, ?_⟩, fun fd o i ho => ?_, fun o i ho => ?_⟩,
    fun happart => ⟨?_, ?_, ?_⟩, System.Same.refl⟩
  · rw [← h.files]
    exact hfile
  · rw [h.files]
  · rintro i ⟨l, -, hfile, rfl⟩
    rw [h.files]
    exact f.fresh l hfile
  · rw [h.handles] at ho
    cases ho
  · rw [h.opening] at ho
    cases ho
  · exact fun l _ => by rw [h.files]
  · exact fun l _ => by rw [h.files]
  · intro l hl hfile
    rw [h.files] at hfile ⊢
    exact happart l hl hfile

/-- A login leaves the process in the home. -/
theorem step_login_homed {e : Event} (h : PassSucceeds (onStore env) e s) (ha : s.conn.authenticated = false)
    (ht : (step (onStore env) e s).conn.authenticated = true) :
    Homed (step (onStore env) e s).home (step (onStore env) e s).proc := by
  obtain ⟨chunk, arg, rfl, hact, hcmd, hok⟩ := h
  rcases step_cases (onStore env) (.controlRead chunk) s with heq | ⟨_, hchunk, -, -, heq⟩ | ⟨hread, -, -⟩
  · rw [heq, ha] at ht
    cases ht
  · cases hchunk
    obtain ⟨pwd, -, hproc⟩ := authenticateAndSwitchUser_ok hok
    have hpass : (step (onStore env) (.controlRead chunk) s).proc =
        (login (onStore env) arg (received s chunk)).proc := by
      have hfree : ∀ s : Session System, (timeoutEventFree (onStore env) s).proc = s.proc := by
        intro s
        unfold timeoutEventFree
        split
        · rfl
        · split <;> rfl
      rw [heq, runCommand, hact]
      change (cftpPassAuthenticated (onStore env) (commandOf s chunk) (received s chunk)).proc = _
      rw [cftpPassAuthenticated, hcmd]
      dsimp only
      split
      · exact hfree _
      · rfl
    have hroot : (step (onStore env) (.controlRead chunk) s).proc.cwd =
        (step (onStore env) (.controlRead chunk) s).proc.root := by
      rw [hpass]
      exact (congrArg Proc.cwd hproc).trans (congrArg Proc.root hproc).symm
    exact ⟨rfl, by rw [hroot]; exact List.prefix_refl _⟩
  · exact absurd rfl (hread chunk)

/-- After the login the home stays. -/
theorem step_home (e : Event) (ha : s.conn.authenticated = true) : (step (onStore env) e s).home = s.home := by
  rcases step_identity (onStore env) e s with hi | ⟨chunk, rfl, -, -, ⟨-, hi⟩ | ⟨hact, -⟩ | ⟨hact, -⟩⟩
  · exact congrArg (fun i => placeOf i.root) hi
  · exact congrArg (fun i => placeOf i.root) hi
  · rw [handlerOf, ha] at hact
    exact absurd rfl (actionFor_authenticated hact).1
  · rw [handlerOf, ha] at hact
    exact absurd rfl (actionFor_authenticated hact).2

/-- Before the login no file changes, and after it the client is at home. -/
structure Confined (env : Env Moment) (f : FileStore Name UInt8) (s : Session System) : Prop where
  before : s.conn.authenticated = false → BeforeLogin s ∧ Untouched f s.os
  after : s.conn.authenticated = true → (atHome env s.home f).Paired s s

/-- **One event.** -/
theorem step_confined (e : Event) (h : Confined env f s) : Confined env f (step (onStore env) e s) := by
  cases ha : s.conn.authenticated with
  | false =>
    obtain ⟨hb, hu⟩ := h.before ha
    obtain ⟨hb', hpass⟩ := step_beforeLogin (onStore env) e ha hb
    have hu' : Untouched f (step (onStore env) e s).os := step_untouched e ha hb hu
    exact ⟨fun _ => ⟨hb', hu'⟩, fun ht => ⟨rfl, hu'.atHome (step_login_homed (hpass ht) ha ht) _ _⟩⟩
  | true =>
    refine ⟨fun ht => ?_, fun _ => ?_⟩
    · rw [(step_afterLogin (onStore env) e ha).1] at ht
      cases ht
    · rw [step_home e ha]
      exact step_atHome e ha (h.after ha)

/-- Every run from a system where nothing is open. -/
theorem reached_confined (env : Env Moment) (addr : SockAddr) (proc : Proc) (hopening : w.opening = none)
    (hhandles : ∀ fd, w.handles fd = none) (es : List Event) :
    Confined env w.files (reached (onStore env) addr proc w es) := by
  refine run_inv (fun e _ h => step_confined e h) es ⟨fun _ => ⟨start_beforeLogin .., ?_⟩, fun ha => ?_⟩
  · have hstart : Untouched w.files w := ⟨rfl, hhandles, hopening⟩
    exact (hstart.after env proc (e := .timerNew 0) (by simp)).after env proc
      (e := .reply 220 (ascii "Welcome to CFTP Server")) (by simp)
  · cases ha

/-- **A client stays at home.** In every state of a session that starts with nothing open: before the login no file has
changed; after it the session works below the home, and outside the home there is what was there at the start, and in it
what was in it, unless a file of the home has another name outside. -/
theorem session_confined (env : Env Moment) (addr : SockAddr) (proc : Proc) (w : System) (hopening : w.opening = none)
    (hhandles : ∀ fd, w.handles fd = none) (es : List Event) (s : Session System)
    (hs : s = reached (onStore env) addr proc w es) :
    (s.conn.authenticated = false → s.os.files = w.files) ∧
      (s.conn.authenticated = true → s.home <+: placeOf s.proc.cwd ∧
        (Apart s.home w.files → ∀ l, ¬ s.home <+: l →
          s.os.files.tree.node l = w.files.tree.node l ∧ s.os.files.text l = w.files.text l)) := by
  have h : Confined env w.files s := hs ▸ reached_confined env addr proc hopening hhandles es
  refine ⟨fun ha => (h.before ha).2.files, fun ha => ?_⟩
  obtain ⟨-, hp, K, -, hout, -⟩ := h.after ha
  exact ⟨hp.cwd, fun happart l hl => ⟨(hout happart).node l hl, (hout happart).text l hl⟩⟩

/-- The names `home`, `alice` and `bob`. -/
def homes : Name := ⟨ascii "home", by decide⟩
def alice : Name := ⟨ascii "alice", by decide⟩
def bob : Name := ⟨ascii "bob", by decide⟩

/-- A system with the home of alice, which is empty, and the file `/etc/passwd`. -/
def mansion (text : Bytes) : System where
  files :=
    { tree := (((FileTree.Tree.mk [] List.nodup_nil (by simp)).insert [etc] .dir).insert [etc, passwd] .file)
        |>.insert [homes] .dir |>.insert [homes, alice] .dir
      number := fun _ => 0
      contents := fun _ => text
      next := 1
      fresh := fun _ _ => Nat.one_pos }
  handles := fun _ => none
  opening := none
  stranded := 0
  ticks := 0

/-- alice is at home there, and everything is permitted. Whoever is asked for, the name is what is in the file. -/
def mansionEnv : Env Moment :=
  { Env.always { Env.permissive with getpwnam := fun _ _ _ => some ⟨1000, 1000, ascii "/home/alice"⟩ } with
    askRootForUsername := fun m _ => m.text.getD []
    askRootForGroupname := fun m _ => m.text.getD [] }

/-- She logs in, and then this happens. -/
def mansionSession (text : Bytes) (es : List Event) : Session System :=
  reached (onStore mansionEnv) (.inet 127 0 0 1) ⟨ascii "/", ascii "/", 0, 0, []⟩ (mansion text)
    (.controlRead (ascii "USER alice\r\n") :: .controlRead (ascii "PASS x\r\n") :: es)

/-- She makes a directory `etc`, goes there, and stores a file under a name that leads up, and down to `/etc/passwd`. -/
def intrusion : List Event :=
  [.controlRead (ascii "MKD etc\r\n"), .controlRead (ascii "CWD etc\r\n"), .controlRead (ascii "PASV\r\n"),
    .accept 1 9 (.inet 127 0 0 1), .controlRead (ascii "STOR ../../../etc/passwd\r\n"),
    .dataRead 3 (ascii "alice"), .dataEvent 3 false false false true]

/-- There is no file in her home. -/
theorem mansion_no_file (text : Bytes) (l : List Name) (hl : [homes, alice] <+: l) :
    (mansion text).files.tree.node l ≠ some .file := by
  have hentries : ∀ e ∈ (mansion []).files.tree.entries, e.2 = .file → ¬ [homes, alice] <+: e.1 := by decide
  have hne : l ≠ [] := by
    rintro rfl
    cases List.prefix_nil.mp hl
  exact fun hfile => hentries _ ((Tree.node_eq_some_iff hne).mp hfile) rfl hl

/-- So the file she writes to is another one, at home. -/
theorem mansion_safe : (mansionSession (ascii "root") intrusion).conn.authenticated = true ∧
    (mansionSession (ascii "root") intrusion).os.files.text [homes, alice, etc, passwd] = some (ascii "alice") ∧
    (mansionSession (ascii "root") intrusion).os.files.text [etc, passwd] = some (ascii "root") := by
  have ha : (mansionSession (ascii "root") intrusion).conn.authenticated = true := by decide +kernel
  have hhome : (mansionSession (ascii "root") intrusion).home = [homes, alice] := by decide +kernel
  have hconf := session_confined mansionEnv (.inet 127 0 0 1) ⟨ascii "/", ascii "/", 0, 0, []⟩ (mansion (ascii "root"))
    rfl (fun _ => rfl)
    (.controlRead (ascii "USER alice\r\n") :: .controlRead (ascii "PASS x\r\n") :: intrusion)
    (mansionSession (ascii "root") intrusion) rfl
  have hout := (hconf.2 ha).2
  rw [hhome] at hout
  have htext := (hout (fun _ _ _ ⟨l, hl, hfile, _⟩ => mansion_no_file _ l hl hfile) [etc, passwd] (by decide)).2
  exact ⟨ha, by decide +kernel, htext.trans (by decide)⟩

/-! ## Two systems -/

/-- The files that are in the home or open. -/
def known (home : List Name) (w : System) : Set Nat :=
  { i | i ∈ filesOf home w.files ∨ ∃ o, (w.opening = some o ∨ ∃ fd, w.handles fd = some o) ∧ o.file? = some i }

/-- The systems are the same as far as the home and the open files go, and the names of users and groups. -/
def Alike (home : List Name) (w w' : System) : Prop := System.Same home (known home w) w w'

/-- Those are the fewest that can be known. -/
theorem known_subset {K : Set Nat} (h : System.Within home K w) : known home w ⊆ K := by
  rintro i (⟨l, hl, hfile, rfl⟩ | ⟨o, ho | ⟨fd, ho⟩, hi⟩)
  · exact h.files.known l hl hfile
  · exact h.opening o i ho hi
  · exact h.handles fd o i ho hi

theorem within_known {K : Set Nat} (h : System.Within home K w) : System.Within home (known home w) w where
  files := ⟨fun l hl hfile => .inl ⟨l, hl, hfile, rfl⟩, fun i hi => h.files.bound i (known_subset h hi)⟩
  handles fd o _ ho hi := .inr ⟨o, .inr ⟨fd, ho⟩, hi⟩
  opening o _ ho hi := .inr ⟨o, .inl ho, hi⟩

/-- alice makes a directory, and lists what is there, with the owners. -/
def looksAround : List Event :=
  [.controlRead (ascii "PASV\r\n"), .accept 1 9 (.inet 127 0 0 1), .controlRead (ascii "MKD x\r\n"),
    .controlRead (ascii "LIST /\r\n")]

end Runs

end CftpServer.Session
