import CftpServer.Session.Frame

/-!
# Nothing before the login

* `step_beforeLogin`: as long as nobody is logged in the session names no path to the system, listens nowhere and has
  no data connection
* `authentication_gates_session`: over every run; the login happens in PASS only, and is never undone
-/

namespace CftpServer.Session

open CLib Command Security Runs

variable {σ : Type} (env : Env σ)

/-- The rows of the table, by the login: what the handlers of clients that are not logged in can be. -/
theorem actionFor_unauthenticated {command : Bytes} {a : Action} (h : actionFor command false = some a) :
    a.pathless = true ∧ a ≠ .epsv ∧ a ≠ .pasv ∧ (a = .pass → command = ascii "PASS") := by
  have hrows : ∀ row ∈ commandActions, row.nonAuthenticatedCb.pathless = true ∧ row.nonAuthenticatedCb ≠ .epsv ∧
      row.nonAuthenticatedCb ≠ .pasv ∧ (row.nonAuthenticatedCb = .pass → row.action = ascii "PASS") := by decide
  simp only [actionFor, lookup_registry, scan, Option.map_eq_some_iff] at h
  obtain ⟨row, hrow, rfl⟩ := h
  obtain ⟨h₁, h₂, h₃, h₄⟩ := hrows row (List.mem_of_find?_eq_some hrow)
  have hname : row.action = command := by simpa using List.find?_some hrow
  exact ⟨h₁, h₂, h₃, fun hp => by rw [← hname]; exact h₄ hp⟩

/-- Nor is a client that is logged in asked to log in again. -/
theorem actionFor_authenticated {command : Bytes} {a : Action} (h : actionFor command true = some a) :
    a ≠ .user ∧ a ≠ .pass := by
  have hrows : ∀ row ∈ commandActions, row.authenticatedCb ≠ .user ∧ row.authenticatedCb ≠ .pass := by decide
  simp only [actionFor, lookup_registry, scan, Option.map_eq_some_iff] at h
  obtain ⟨row, hrow, rfl⟩ := h
  exact hrows row (List.mem_of_find?_eq_some hrow)

/-- Effects that need a login. -/
def Gated : Effect → Prop
  | .call _ => True
  | .bevNew _ _ => True
  | .bind _ => True
  | .listenerNew _ _ => True
  | _ => False

/-- The session has named no path of a client to the system, listens nowhere and has no data connection. -/
structure BeforeLogin (s : Session σ) : Prop where
  log : ∀ e ∈ s.log, ¬ Gated e
  bevs : ∀ b, s.bevs b = none
  listeners : ∀ l, s.listeners l = false

/-- The step runs PASS, with a password that logs the user in. -/
def PassSucceeds (e : Event) (s : Session σ) : Prop :=
  ∃ chunk arg, e = .controlRead chunk ∧ handlerOf s chunk = some .pass ∧
    commandOf s chunk = ⟨ascii "PASS", [arg]⟩ ∧
    (authenticateAndSwitchUser env s.os s.proc s.conn.username arg).ok = true

section Gate

variable {s₀ s : Session σ}

/-- A session that goes on quietly. -/
theorem BeforeLogin.of_extends (h : BeforeLogin s₀) (he : Extends (fun _ => False) False s₀ s) : BeforeLogin s where
  log e hm := by
    obtain ⟨d, hd, hq⟩ := he.log
    rw [hd] at hm
    rcases List.mem_append.mp hm with hm | hm
    · exact h.log e hm
    · intro hg
      have := hq e hm
      cases e <;> simp [Gated] at hg <;> exact this
  bevs b := by
    rw [Option.eq_none_iff_forall_ne_some]
    intro v hv
    rcases he.bevs hv with ⟨v₀, hv₀, -⟩ | ⟨hn, -⟩
    · rw [h.bevs b] at hv₀
      cases hv₀
    · exact hn
  listeners l := by
    rw [← Bool.not_eq_true]
    intro hl
    rcases he.listeners hl with hl | hn
    · rw [h.listeners l] at hl
      cases hl
    · exact hn

/-- Without a login, events of data connections and listeners do not happen, and the others go on quietly. -/
theorem handle_beforeLogin {e : Event} (h : BeforeLogin s) (he : ∀ chunk, e ≠ .controlRead chunk) :
    Extends (fun _ => False) False s (handle env e s) := by
  have hr : Extends (fun _ => False) False s s := .refl
  cases e with
  | controlRead chunk => exact absurd rfl (he chunk)
  | controlWrite n => exact .of_moves env (controlWrite_moves n)
  | controlEof => exact .of_moves env exit_moves
  | parentDead => exact .of_moves env exit_moves
  | timer t => exact timer_extends env t
  | accept listener fd addr => simpa [handle, h.listeners] using hr
  | dataRead b bytes => simpa [handle, h.bevs] using hr
  | dataWrite b n => simpa [handle, h.bevs] using hr
  | dataEvent b connected timeout error eof => simpa [handle, h.bevs] using hr

/-- One more effect that needs no login. -/
theorem BeforeLogin.of_log (h : BeforeLogin s₀) {e : Effect} (he : ¬ Gated e) (hlog : s.log = s₀.log ++ [e])
    (hbevs : s.bevs = s₀.bevs) (hlisteners : s.listeners = s₀.listeners) : BeforeLogin s where
  log e' hm := by
    rw [hlog] at hm
    rcases List.mem_append.mp hm with hm | hm
    · exact h.log e' hm
    · rw [List.mem_singleton.mp hm]
      exact he
  bevs b := by rw [hbevs]; exact h.bevs b
  listeners l := by rw [hlisteners]; exact h.listeners l

theorem cftpProtAction_beforeLogin (cmd : CftpCommand) (h : BeforeLogin s) :
    BeforeLogin (s.cftpProtAction env cmd) ∧ (s.cftpProtAction env cmd).conn.authenticated = s.conn.authenticated := by
  rcases cftpProtAction_cases env cmd with ⟨-, heq⟩ | hx
  · rw [heq]
    exact ⟨h.of_log (e := .reply 200 (ascii "PROT now Private")) id rfl rfl rfl, rfl⟩
  · exact ⟨h.of_extends hx, hx.authenticated⟩

theorem cftpUserAuthenticated_beforeLogin (cmd : CftpCommand) (h : BeforeLogin s) :
    BeforeLogin (s.cftpUserAuthenticated env cmd) ∧
      (s.cftpUserAuthenticated env cmd).conn.authenticated = s.conn.authenticated := by
  obtain ⟨username, hx⟩ := cftpUserAuthenticated_extends env cmd
  have h' : BeforeLogin { s with conn := { s.conn with username := username } } := ⟨h.log, h.bevs, h.listeners⟩
  exact ⟨h'.of_extends hx, hx.authenticated⟩

/-- PASS logs in only when the login succeeds. -/
theorem cftpPassAuthenticated_beforeLogin (cmd : CftpCommand) (h : BeforeLogin s) :
    BeforeLogin (s.cftpPassAuthenticated env cmd) ∧ ((s.cftpPassAuthenticated env cmd).conn.authenticated = true →
      s.conn.authenticated = true ∨ ∃ arg, cmd.args = [arg] ∧ (login env arg s).ok = true) := by
  rcases cftpPassAuthenticated_cases env cmd with ⟨arg, harg, hx⟩ | hx
  · have h' : BeforeLogin (attempted env arg s) :=
      h.of_log (e := .authenticate s.conn.username arg (login env arg s).ok) id rfl rfl rfl
    refine ⟨h'.of_extends hx, fun ht => ?_⟩
    rw [hx.authenticated, attempted, Bool.or_eq_true] at ht
    exact ht.imp_right fun hok => ⟨arg, harg, hok⟩
  · exact ⟨h.of_extends hx, fun ht => .inl (by rw [← ht, hx.authenticated])⟩

/-- What a command does before the login. -/
theorem runAction_beforeLogin {a : Action} {cmd : CftpCommand} (h : BeforeLogin s)
    (ha : actionFor cmd.command false = some a) :
    BeforeLogin (runAction env a cmd s) ∧ ((runAction env a cmd s).conn.authenticated = true →
      s.conn.authenticated = true ∨ (a = .pass ∧ ∃ arg, cmd.args = [arg] ∧ (login env arg s).ok = true)) := by
  obtain ⟨hpath, he, hp, -⟩ := actionFor_unauthenticated ha
  by_cases hex : a ≠ .prot ∧ a ≠ .user ∧ a ≠ .pass
  · have hx : Extends (fun _ => False) False s (runAction env a cmd s) :=
      .of_moves env (runAction_moves cmd hex ⟨he, hp⟩ fun hf => by rw [hpath] at hf; cases hf)
    exact ⟨h.of_extends hx, fun ht => .inl (by rw [← ht, hx.authenticated])⟩
  · have hcases : a = .prot ∨ a = .user ∨ a = .pass := by tauto
    rcases hcases with rfl | rfl | rfl
    · obtain ⟨h₁, h₂⟩ := cftpProtAction_beforeLogin env cmd h
      exact ⟨h₁, fun ht => .inl (by rw [← h₂]; exact ht)⟩
    · obtain ⟨h₁, h₂⟩ := cftpUserAuthenticated_beforeLogin env cmd h
      exact ⟨h₁, fun ht => .inl (by rw [← h₂]; exact ht)⟩
    · obtain ⟨h₁, h₂⟩ := cftpPassAuthenticated_beforeLogin env cmd h
      exact ⟨h₁, fun ht => (h₂ ht).imp_right fun hok => ⟨rfl, hok⟩⟩

/-- One event before the login: it leaves the session as the gate wants it, and it logs in only as a PASS that
succeeds. -/
theorem step_beforeLogin (e : Event) (hs : s.conn.authenticated = false) (h : BeforeLogin s) :
    BeforeLogin (step env e s) ∧ ((step env e s).conn.authenticated = true → PassSucceeds env e s) := by
  have hno : ¬ s.conn.authenticated = true := by rw [hs]; decide
  rcases step_cases env e s with heq | ⟨chunk, rfl, -, -, heq⟩ | ⟨hread, -, heq⟩
  · rw [heq]
    exact ⟨h, fun ht => absurd ht hno⟩
  · have h' : BeforeLogin (received s chunk) := ⟨h.log, h.bevs, h.listeners⟩
    rw [heq, runCommand]
    cases ha : handlerOf s chunk with
    | none =>
      refine ⟨h'.of_extends (Extends.replies env .refl (by decide)), fun ht => absurd ht hno⟩
    | some a =>
      have ha' : actionFor (commandOf s chunk).command false = some a := by rw [← hs]; exact ha
      obtain ⟨h₁, h₂⟩ := runAction_beforeLogin env h' ha'
      refine ⟨h₁, fun ht => ?_⟩
      obtain ⟨rfl, arg, harg, hok⟩ := (h₂ ht).resolve_left hno
      have hname := (actionFor_unauthenticated ha').2.2.2 rfl
      exact ⟨chunk, arg, rfl, ha, by rw [← hname, ← harg], hok⟩
  · have hx := handle_beforeLogin env h hread
    rw [heq]
    exact ⟨h.of_extends hx, fun ht => absurd (by rw [← ht, hx.authenticated]) hno⟩

/-- One event after the login: the login and its user stay. -/
theorem step_afterLogin (e : Event) (hs : s.conn.authenticated = true) :
    (step env e s).conn.authenticated = true ∧ (step env e s).conn.username = s.conn.username := by
  have hno : ∀ {chunk a}, handlerOf s chunk = some a → a ≠ .user ∧ a ≠ .pass := fun {chunk a} ha =>
    actionFor_authenticated (by rw [← hs]; exact ha)
  rcases step_extends env e s with hx | ⟨chunk, -, -, -, heq⟩ | ⟨chunk, username, -, ha, -⟩ | ⟨chunk, arg, -, ha, -⟩
  · exact ⟨hx.authenticated.trans hs, hx.username⟩
  · rw [heq]
    exact ⟨hs, rfl⟩
  · exact absurd rfl (hno ha).1
  · exact absurd rfl (hno ha).2

end Gate

theorem start_beforeLogin (addr : SockAddr) (proc : Proc) (os : σ) : BeforeLogin (start env addr proc os) where
  log e hm := by
    simp only [start, sendControlMessage, timerNew, emit, fresh, List.nil_append, List.mem_append,
      List.mem_singleton] at hm
    rcases hm with rfl | rfl <;> exact id
  bevs _ := rfl
  listeners _ := rfl

/-- **Authentication gates everything.** In every state of a session in which nobody is logged in, no path of the client
was named to the system, nothing listens and there is no data connection; the next event logs in only as a PASS whose
password is accepted; and once somebody is logged in, no event changes that or the user. -/
theorem authentication_gates_session (addr : SockAddr) (proc : Proc) (os : σ) (es : List Event) :
    ((reached env addr proc os es).conn.authenticated = false → BeforeLogin (reached env addr proc os es)) ∧
      ∀ e, ((reached env addr proc os es).conn.authenticated = false →
          (step env e (reached env addr proc os es)).conn.authenticated = true →
            PassSucceeds env e (reached env addr proc os es)) ∧
        ((reached env addr proc os es).conn.authenticated = true →
          (step env e (reached env addr proc os es)).conn.authenticated = true ∧
            (step env e (reached env addr proc os es)).conn.username =
              (reached env addr proc os es).conn.username) := by
  have hinv : (reached env addr proc os es).conn.authenticated = false → BeforeLogin (reached env addr proc os es) := by
    refine run_inv (P := fun s => s.conn.authenticated = false → BeforeLogin s) (fun e s h hs => ?_) es
      fun _ => start_beforeLogin env addr proc os
    cases ha : s.conn.authenticated with
    | false => exact (step_beforeLogin env e ha (h ha)).1
    | true =>
      rw [(step_afterLogin env e ha).1] at hs
      cases hs
  exact ⟨hinv, fun e => ⟨fun hs ht => (step_beforeLogin env e hs (hinv hs)).2 ht, step_afterLogin env e⟩⟩

end CftpServer.Session
