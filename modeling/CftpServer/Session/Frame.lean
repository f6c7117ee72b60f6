import CftpServer.Session.Handlers
import CftpServer.Lib.Growth

/-!
# What a callback leaves alone

`Extends C N s₀ s` says how far the session `s` may be from `s₀`: its log goes on with quiet effects only, whose calls
on paths are in `C`; the login, the protection level and the bufferevents with their TLS are kept, and nothing listens
that did not before. Moves keep it (`Extends.of_moves`), and so do the functions that listen, connect and free timers.
`step_extends` says what a step does in these terms.
-/

namespace CftpServer.Session

open CLib Command Growth

variable {σ : Type} (env : Env σ)

/-- What a session did on the way from `s` to `s'`. -/
def newEffects (s s' : Session σ) : List Effect := s'.log.drop s.log.length

theorem newEffects_eq {s s' : Session σ} {d : List Effect} (h : s'.log = s.log ++ d) : newEffects s s' = d := by
  rw [newEffects, h, List.drop_left]

theorem newEffects_self (s : Session σ) : newEffects s s = [] := newEffects_eq (List.append_nil _).symm

/-- Effects of any callback but PROT, USER and PASS, from the session `s₀` on. Data moves over a bufferevent that lives,
with the TLS it was created with, or over a new one, with the TLS the connection asks for. -/
def Quiet (C : Call → Prop) (N : Prop) (s₀ : Session σ) : Effect → Prop
  | .call c => C c
  | .reply statusCode text => ¬ (statusCode = 200 ∧ text = ascii "PROT now Private")
  | .bevWrite b tls _ => (∃ v, s₀.bevs b = some v ∧ v.tls = tls) ∨ (N ∧ tls = s₀.conn.dataTlsRequired)
  | .store b tls _ _ => (∃ v, s₀.bevs b = some v ∧ v.tls = tls) ∨ (N ∧ tls = s₀.conn.dataTlsRequired)
  | .authenticate _ _ _ => False
  | .bevNew _ _ => N
  | .bind _ => N
  | .listenerNew _ _ => N
  | _ => True

/-- The listener that is open is the one the connection knows. -/
def ListenerOk (s : Session σ) : Prop := ∀ l, s.listeners l = true ↔ s.conn.pasvListener = some l

/-- The session `s` goes on from `s₀`. -/
structure Extends (C : Call → Prop) (N : Prop) (s₀ s : Session σ) : Prop where
  log : ∃ d, s.log = s₀.log ++ d ∧ ∀ e ∈ d, Quiet C N s₀ e
  authenticated : s.conn.authenticated = s₀.conn.authenticated
  username : s.conn.username = s₀.conn.username
  sourceIp : s.conn.sourceIp = s₀.conn.sourceIp
  dataTlsRequired : s.conn.dataTlsRequired = s₀.conn.dataTlsRequired
  bevs : ∀ {b v}, s.bevs b = some v →
    (∃ v₀, s₀.bevs b = some v₀ ∧ v₀.tls = v.tls) ∨ (N ∧ v.tls = s₀.conn.dataTlsRequired)
  listeners : ∀ {l}, s.listeners l = true → s₀.listeners l = true ∨ N
  listenerOk : ListenerOk s₀ → ListenerOk s

namespace Extends

variable {C : Call → Prop} {N : Prop} {s₀ s s' : Session σ}

theorem refl : Extends C N s₀ s₀ :=
  ⟨⟨[], (List.append_nil _).symm, fun _ h => by cases h⟩, rfl, rfl, rfl, rfl, fun h => .inl ⟨_, h, rfl⟩, .inl, id⟩

/-- A change of anything else. -/
theorem of_eq (h : Extends C N s₀ s) (hlog : s'.log = s.log) (hbevs : s'.bevs = s.bevs)
    (hlisteners : s'.listeners = s.listeners) (ha : s'.conn.authenticated = s.conn.authenticated)
    (hu : s'.conn.username = s.conn.username) (hi : s'.conn.sourceIp = s.conn.sourceIp)
    (ht : s'.conn.dataTlsRequired = s.conn.dataTlsRequired)
    (hp : s'.conn.pasvListener = s.conn.pasvListener) : Extends C N s₀ s' where
  log := by rw [hlog]; exact h.log
  authenticated := ha.trans h.authenticated
  username := hu.trans h.username
  sourceIp := hi.trans h.sourceIp
  dataTlsRequired := ht.trans h.dataTlsRequired
  bevs hb := by rw [hbevs] at hb; exact h.bevs hb
  listeners hl := by rw [hlisteners] at hl; exact h.listeners hl
  listenerOk ok l := by rw [hlisteners, hp]; exact h.listenerOk ok l

/-- A change of the bufferevents that keeps their TLS. -/
theorem setBevs (h : Extends C N s₀ s) {bevs : Nat → Option Bev}
    (hb : ∀ {b v}, bevs b = some v → ∃ v', s.bevs b = some v' ∧ v'.tls = v.tls) :
    Extends C N s₀ { s with bevs := bevs } where
  log := h.log
  authenticated := h.authenticated
  username := h.username
  sourceIp := h.sourceIp
  dataTlsRequired := h.dataTlsRequired
  bevs hv := by
    obtain ⟨v', hv', ht'⟩ := hb hv
    rw [← ht']
    exact h.bevs hv'
  listeners := h.listeners
  listenerOk := h.listenerOk

/-- A bufferevent replaced by one with the same TLS. -/
theorem setBev (h : Extends C N s₀ s) {b : Nat} {v v' : Bev} (hv : s.bevs b = some v) (ht : v'.tls = v.tls) :
    Extends C N s₀ { s with bevs := Function.update s.bevs b (some v') } := by
  refine h.setBevs fun {b' w} hw => ?_
  by_cases hb : b' = b
  · subst hb
    rw [Function.update_self, Option.some.injEq] at hw
    exact ⟨v, hv, by rw [← ht, hw]⟩
  · rw [Function.update_of_ne hb] at hw
    exact ⟨w, hw, rfl⟩

/-- A bufferevent that is gone. -/
theorem dropBev (h : Extends C N s₀ s) (b : Nat) : Extends C N s₀ { s with bevs := Function.update s.bevs b none } := by
  refine h.setBevs fun {b' w} hw => ?_
  by_cases hb : b' = b
  · subst hb
    rw [Function.update_self] at hw
    cases hw
  · rw [Function.update_of_ne hb] at hw
    exact ⟨w, hw, rfl⟩

/-- The TLS of what lives, and of what is new, from one session to the next. -/
theorem bevTls (h : Extends C N s₀ s) {b : Nat} {tls : Bool}
    (ht : (∃ v, s.bevs b = some v ∧ v.tls = tls) ∨ (N ∧ tls = s.conn.dataTlsRequired)) :
    (∃ v, s₀.bevs b = some v ∧ v.tls = tls) ∨ (N ∧ tls = s₀.conn.dataTlsRequired) := by
  rcases ht with ⟨v, hv, rfl⟩ | ⟨hn, rfl⟩
  · exact h.bevs hv
  · exact .inr ⟨hn, h.dataTlsRequired⟩

theorem quiet (h : Extends C N s₀ s) {e : Effect} (he : Quiet C N s e) : Quiet C N s₀ e := by
  cases e with
  | bevWrite b tls bytes | store b tls fd bytes => exact h.bevTls he
  | _ => exact he

theorem emit (h : Extends C N s₀ s) {e : Effect} (he : Quiet C N s e) : Extends C N s₀ (s.emit env e) where
  log := Grown.concat h.log (h.quiet he)
  authenticated := h.authenticated
  username := h.username
  sourceIp := h.sourceIp
  dataTlsRequired := h.dataTlsRequired
  bevs := h.bevs
  listeners := h.listeners
  listenerOk := h.listenerOk

theorem trans (h : Extends C N s₀ s) (h' : Extends C N s s') : Extends C N s₀ s' where
  log := Grown.trans h.log (Grown.mono h'.log fun _ he => h.quiet he)
  authenticated := h'.authenticated.trans h.authenticated
  username := h'.username.trans h.username
  sourceIp := h'.sourceIp.trans h.sourceIp
  dataTlsRequired := h'.dataTlsRequired.trans h.dataTlsRequired
  bevs hv := h.bevTls (h'.bevs hv)
  listeners hl := (h'.listeners hl).elim h.listeners .inr
  listenerOk ok := h'.listenerOk (h.listenerOk ok)

theorem andThen (h : Extends C N s₀ s) {f : Session σ → Session σ} (hf : Extends C N s₀ s → Extends C N s₀ (f s)) :
    Extends C N s₀ (s.andThen f) := by
  unfold Session.andThen
  split
  · exact h
  · exact hf h

theorem crash (h : Extends C N s₀ s) : Extends C N s₀ s.crash := h.of_eq rfl rfl rfl rfl rfl rfl rfl rfl

theorem sendControlMessage (h : Extends C N s₀ s) {n : Nat} {text : Bytes}
    (hp : ¬ (n = 200 ∧ text = ascii "PROT now Private")) : Extends C N s₀ (s.sendControlMessage env n text) :=
  (h.emit env (e := .reply n text) hp).of_eq rfl rfl rfl rfl rfl rfl rfl rfl

/-- A reply with another code than that of PROT. -/
theorem replies (h : Extends C N s₀ s) {n : Nat} {text : Bytes} (hn : n ≠ 200) :
    Extends C N s₀ (s.sendControlMessage env n text) := h.sendControlMessage env fun hp => hn hp.1

theorem closeFd (h : Extends C N s₀ s) {fd : Int} : Extends C N s₀ (s.closeFd env fd) := by
  unfold Session.closeFd
  split
  · exact h
  · exact h.emit env (e := .closed fd) trivial

theorem closeAll {fds : List Int} : ∀ {s : Session σ}, Extends C N s₀ s → Extends C N s₀ (s.closeAll env fds) := by
  induction fds with
  | nil => intro s h; exact h
  | cons fd fds ih => intro s h; exact ih (h.closeFd env)

theorem bevFree (h : Extends C N s₀ s) {b : Nat} : Extends C N s₀ (s.bevFree env b) := by
  unfold Session.bevFree
  split
  · exact h.crash
  · rename_i v hv
    exact closeAll env ((h.dropBev b).emit env (e := .bevFree b v.output) trivial)

theorem closeDataConnection (h : Extends C N s₀ s) : Extends C N s₀ (s.closeDataConnection env) := by
  unfold Session.closeDataConnection
  split
  · exact h.of_eq rfl rfl rfl rfl rfl rfl rfl rfl
  · exact (h.bevFree env).of_eq rfl rfl rfl rfl rfl rfl rfl rfl

theorem quiet_of_inert {e : Effect} (he : Inert C e) : Quiet C N s e := by
  cases e with
  | call | reply => exact he
  | text | opened | closed | rejected => exact trivial
  | _ => exact he.elim

/-- One move. -/
theorem of_move (hm : Move env C s s') : Extends C N s s' := by
  have h : Extends C N s s := .refl
  cases hm with
  | keep hk =>
    have hf := congrArg Durable.toFixed hk
    have hi := congrArg Fixed.toIdentity hf
    exact h.of_eq (congrArg Durable.log hk) (congrArg Durable.bevs hk) (congrArg Fixed.listeners hf)
      (congrArg Identity.authenticated hi) (congrArg Identity.username hi) (congrArg Identity.sourceIp hi)
      (congrArg Identity.dataTlsRequired hi) (congrArg Fixed.pasvListener hf)
  | fresh => exact h.of_eq rfl rfl rfl rfl rfl rfl rfl rfl
  | did he => exact h.emit env (quiet_of_inert he)
  | bev hv ht => exact h.setBev hv ht
  | wrote bytes hb => exact h.emit env (.inl hb)
  | stored fd bytes hb => exact h.emit env (.inl hb)
  | fired ht => exact h.of_eq rfl rfl rfl rfl rfl rfl rfl rfl
  | closed => exact h.closeDataConnection env

/-- Any number of moves. -/
theorem of_moves (hm : Moves env C s s') : Extends C N s s' := by
  induction hm with
  | refl => exact .refl
  | tail _ hm ih => exact ih.trans (of_move env hm)

/-! ## Listeners and timers -/

/-- The listener is closed, and the connection has none. -/
theorem closeListener (h : Extends C N s₀ s) {l : Nat} (hl : s.listeners l = true) :
    Extends C N s₀ (Session.emit env (.listenerFree l) { s with
      listeners := Function.update s.listeners l false
      conn := { s.conn with pasvListener := none } }) := by
  refine emit env (e := .listenerFree l) ?_ trivial
  refine ⟨h.log, h.authenticated, h.username, h.sourceIp, h.dataTlsRequired, h.bevs, fun {l'} hl' => ?_,
    fun ok l' => ?_⟩
  · by_cases hb : l' = l
    · subst hb
      simp at hl'
    · simp only [Function.update_of_ne hb] at hl'
      exact h.listeners hl'
  · have hs := h.listenerOk ok
    by_cases hb : l' = l
    · subst hb
      simp
    · simp only [Function.update_of_ne hb, reduceCtorEq, iff_false]
      intro hl'
      have := (hs l).mp hl
      rw [(hs l').mp hl', Option.some.injEq] at this
      exact hb this

theorem timeoutEventFree (h : Extends C N s₀ s) : Extends C N s₀ (s.timeoutEventFree env) := by
  unfold Session.timeoutEventFree
  split
  · exact h.crash
  · split
    · refine emit env ?_ trivial
      exact h.of_eq rfl rfl rfl rfl rfl rfl rfl rfl
    · exact (h.emit env (e := .timerFree _) trivial).crash

theorem dropListener (h : Extends C N s₀ s) : Extends C N s₀ (s.dropListener env) := by
  unfold Session.dropListener
  split
  · rename_i l hl
    by_cases hopen : s.listeners l = true
    · simp only [listenerFree, if_pos hopen]
      exact h.closeListener env hopen
    · simp only [listenerFree, if_neg hopen]
      have h₁ := h.emit env (e := .listenerFree l) trivial
      exact ⟨h₁.log, h₁.authenticated, h₁.username, h₁.sourceIp, h₁.dataTlsRequired, h₁.bevs, h₁.listeners,
        fun ok => absurd ((h.listenerOk ok l).mpr hl) hopen⟩
  · exact h

theorem timerNew (h : Extends C N s₀ s) {cb : TimerCallback} : Extends C N s₀ (s.timerNew env cb) := by
  refine of_eq (emit env ?_ (e := .timerNew s.nextId) trivial) rfl rfl rfl rfl rfl rfl rfl rfl
  exact h.of_eq rfl rfl rfl rfl rfl rfl rfl rfl

theorem announcePort (h : Extends C N s₀ s) {extended : Bool} {ip : UInt8 × UInt8 × UInt8 × UInt8} {port : Nat} :
    Extends C N s₀ (s.announcePort env extended ip port) := by
  unfold Session.announcePort
  split
  · exact h.replies env (by decide)
  · have h₁ : Extends C N s₀ (s.timerNew env .killListenerOnTimeout) := h.timerNew env
    simp only []
    split
    · exact h₁.replies env (by decide)
    · exact h₁.replies env (by decide)

theorem dropListener_pasvListener (s : Session σ) : (s.dropListener env).conn.pasvListener = none := by
  unfold Session.dropListener
  split
  · rfl
  · assumption

section New

variable (hN : N)
include hN

theorem tryPort (h : Extends C N s₀ s) (port : Nat) (hp : s.conn.pasvListener = none) :
    Extends C N s₀ (s.tryPort env port) := by
  have h₁ := h.emit env (e := .bind port) hN
  unfold Session.tryPort
  split
  · refine of_eq (emit env ?_ (e := .listenerNew s.nextId port) hN) rfl rfl rfl rfl rfl rfl rfl rfl
    refine ⟨h₁.log, h₁.authenticated, h₁.username, h₁.sourceIp, h₁.dataTlsRequired, h₁.bevs, fun _ => .inr hN,
      fun ok l => ?_⟩
    -- the new listener is the only one: the connection had none
    by_cases hl : l = s.nextId
    · subst hl
      simp
    · have hno := h.listenerOk ok l
      rw [hp] at hno
      simp [Function.update_of_ne hl, hno, Ne.symm hl]
  · exact h₁.of_eq rfl rfl rfl rfl rfl rfl rfl hp.symm

/-- A port that cannot be had leaves the connection without a listener. -/
theorem portLoop (fuel : Nat) : ∀ (port : Nat) {s : Session σ}, s.conn.pasvListener = none → Extends C N s₀ s →
    Extends C N s₀ (s.portLoop env fuel port).2 := by
  induction fuel with
  | zero => intro port s _ h; exact h.of_eq rfl rfl rfl rfl rfl rfl rfl rfl
  | succ fuel ih =>
    intro port s hp h
    unfold Session.portLoop
    split
    · have h₁ := h.tryPort env hN port hp
      simp only []
      split
      · exact h₁
      · rename_i hnone
        exact ih _ (by simpa using hnone) h₁
    · exact h

theorem dataConnectionListenerConfig (h : Extends C N s₀ s) {extended : Bool} :
    Extends C N s₀ (s.dataConnectionListenerConfig env extended) := by
  unfold Session.dataConnectionListenerConfig
  refine andThen (h.dropListener env) fun h => ?_
  split
  · exact andThen (portLoop env hN _ _ (dropListener_pasvListener env s) h) fun h => h.announcePort env
  · exact h.replies env (by decide)

theorem newDataBev (h : Extends C N s₀ s) : Extends C N s₀ (s.newDataBev env) := by
  unfold Session.newDataBev
  split
  · refine of_eq (emit env ?_ (e := .bevNew s.nextId s.conn.dataTlsRequired) hN) rfl rfl rfl rfl rfl rfl rfl rfl
    refine ⟨h.log, h.authenticated, h.username, h.sourceIp, h.dataTlsRequired, fun {b v} hv => ?_, h.listeners,
      h.listenerOk⟩
    by_cases hb : b = s.nextId
    · subst hb
      simp only [Function.update_self, Option.some.injEq] at hv
      exact .inr ⟨hN, by rw [← hv]; exact h.dataTlsRequired⟩
    · simp only [Function.update_of_ne hb] at hv
      exact h.bevs hv
  · exact h.of_eq rfl rfl rfl rfl rfl rfl rfl rfl

theorem dataConnectionAcceptCb (h : Extends C N s₀ s) (hs : s.ended = none) {listener : Nat} {fd : Int}
    {addr : SockAddr} : Extends C N s₀ (s.dataConnectionAcceptCb env listener fd addr) := by
  unfold Session.dataConnectionAcceptCb
  split
  · exact h.emit env (e := .rejected fd) trivial
  · by_cases hl : s.listeners listener = true
    · have h₁ := h.closeListener env hl
      simp only [Session.listenerFree, if_pos hl, Session.andThen, Session.emit, hs, Option.isSome_none,
        Bool.false_eq_true, if_false]
      have h₂ : Extends C N s₀ (Session.newDataBev env { s with
          listeners := Function.update s.listeners listener false
          log := s.log ++ [.listenerFree listener]
          os := env.after s.os s.proc (.listenerFree listener)
          conn := { s.conn with dataActive := 0, pasvListener := none } }) := by
        apply newDataBev env hN
        exact h₁.of_eq rfl rfl rfl rfl rfl rfl rfl rfl
      rw [hs] at h₂
      split
      · exact h₂
      · apply timeoutEventFree env
        exact h₂.of_eq rfl rfl rfl rfl rfl rfl rfl rfl
    · simp only [Session.listenerFree, if_neg hl, Session.andThen, Session.crash, Option.isSome_some, if_true]
      exact (h.emit env (e := .listenerFree listener) trivial).crash

end New

end Extends

variable {C : Call → Prop} {N : Prop} {s : Session σ}

/-! ## PROT, USER and PASS -/

/-- PROT P asks for TLS; any other PROT only replies. -/
theorem cftpProtAction_cases (cmd : CftpCommand) :
    (cmd.args = [ascii "P"] ∧ s.cftpProtAction env cmd = sendControlMessage env 200 (ascii "PROT now Private")
        { s with conn := { s.conn with dataTlsRequired := true } }) ∨
      Extends C N s (s.cftpProtAction env cmd) := by
  have h : Extends C N s s := .refl
  unfold cftpProtAction withArg
  split
  · rename_i arg harg
    by_cases hp : arg = ascii "P"
    · exact .inl ⟨by rw [harg, hp], if_pos hp⟩
    · refine .inr ?_
      simp only [if_neg hp]
      exact h.replies env (by decide)
  · exact .inr (h.replies env (by decide))

/-- USER changes the user name, if anything. -/
theorem cftpUserAuthenticated_extends (cmd : CftpCommand) : ∃ username,
    Extends C N { s with conn := { s.conn with username := username } } (s.cftpUserAuthenticated env cmd) := by
  have h : Extends C N s s := .refl
  unfold cftpUserAuthenticated
  split
  · split
    · rename_i username _
      exact ⟨username, Extends.replies env .refl (by decide)⟩
    · exact ⟨s.conn.username, h.replies env (by decide)⟩
  · exact ⟨s.conn.username, Extends.of_moves env (Moves.refl.setControlWriteCb.replies (by decide))⟩

/-- The session after a login attempt, and its outcome. -/
def attempted (password : Bytes) (s : Session σ) : Session σ :=
  { loggedIn env password s with
    conn := { (loggedIn env password s).conn with authenticated := s.conn.authenticated || (login env password s).ok } }

/-- PASS with an argument attempts a login. -/
theorem cftpPassAuthenticated_cases (cmd : CftpCommand) :
    (∃ arg, cmd.args = [arg] ∧ Extends C N (attempted env arg s) (s.cftpPassAuthenticated env cmd)) ∨
      Extends C N s (s.cftpPassAuthenticated env cmd) := by
  unfold cftpPassAuthenticated
  split
  · rename_i arg harg
    refine .inl ⟨arg, harg, ?_⟩
    have h : Extends C N (attempted env arg s) (attempted env arg s) := .refl
    split
    · rename_i hok
      apply Extends.timeoutEventFree env
      exact (h.replies env (by decide)).of_eq rfl rfl rfl (by simp [attempted, hok, sendControlMessage, emit])
        rfl rfl rfl rfl
    · rename_i hok
      refine Extends.replies env ?_ (by decide)
      exact h.of_eq rfl rfl rfl (by simp [attempted, loggedIn, hok]) rfl rfl rfl rfl
  · have h : Extends C N s s := .refl
    exact .inr (Extends.of_moves env (Moves.refl.setControlWriteCb.replies (by decide)))

/-! ## One event -/

/-- A timer runs out. -/
theorem timer_extends (t : Nat) : Extends C N s (handle env (.timer t) s) := by
  by_cases ht : s.timers t = some ⟨.killListenerOnTimeout, true⟩
  · simp only [handle, ht, if_true]
    exact Extends.dropListener env (Extends.of_move env (.fired ht))
  · exact .of_moves env (timer_moves ht)

/-- What one event does, all told: the session goes on from where it is, or from what PROT P, USER or PASS made of it.
-/
theorem step_extends (e : Event) (s : Session σ) :
    Extends (fun _ => True) True s (step env e s) ∨
      (∃ chunk, e = .controlRead chunk ∧ handlerOf s chunk = some .prot ∧ (commandOf s chunk).args = [ascii "P"] ∧
        step env e s = sendControlMessage env 200 (ascii "PROT now Private")
          { received s chunk with conn := { s.conn with dataTlsRequired := true } }) ∨
      (∃ chunk username, e = .controlRead chunk ∧ handlerOf s chunk = some .user ∧
        Extends (fun _ => True) True { received s chunk with conn := { s.conn with username := username } }
          (step env e s)) ∨
      (∃ chunk arg, e = .controlRead chunk ∧ handlerOf s chunk = some .pass ∧ (commandOf s chunk).args = [arg] ∧
        Extends (fun _ => True) True (attempted env arg (received s chunk)) (step env e s)) := by
  have hrec : ∀ {chunk : Bytes}, Extends (fun _ => True) True s (received s chunk) := fun {_} =>
    Extends.of_eq .refl rfl rfl rfl rfl rfl rfl rfl rfl
  rcases step_moves env e s with hm | ⟨hs, hsp⟩
  · exact .inl (.of_moves env hm)
  · generalize step env e s = s' at hsp ⊢
    cases hsp with
    | prot hne ha hargs => exact .inr (.inl ⟨_, rfl, ha, hargs, rfl⟩)
    | @user chunk arg username hne ha hargs hu =>
      exact .inr (.inr (.inl ⟨chunk, username, rfl, ha, Extends.replies env .refl (by decide)⟩))
    | @pass chunk arg hne ha hargs =>
      rcases cftpPassAuthenticated_cases env (s := received s chunk) (commandOf s chunk) with ⟨arg', harg, hx⟩ | hx
      · exact .inr (.inr (.inr ⟨chunk, arg', rfl, ha, harg, hx⟩))
      · exact .inl (hrec.trans hx)
    | passive extended hne ha => exact .inl (hrec.dataConnectionListenerConfig env trivial)
    | accept hl hp => exact .inl (Extends.dataConnectionAcceptCb env trivial .refl hs)
    | timer ht => exact .inl (Extends.dropListener env (Extends.of_move env (.fired ht)))

/-- The peer of the control connection stays. -/
theorem step_sourceIp (e : Event) (s : Session σ) : (step env e s).conn.sourceIp = s.conn.sourceIp := by
  rcases step_extends env e s with hx | ⟨chunk, -, -, -, heq⟩ | ⟨chunk, username, -, -, hx⟩ | ⟨chunk, arg, -, -, -, hx⟩
  · exact hx.sourceIp
  · rw [heq]
    rfl
  · exact hx.sourceIp
  · exact hx.sourceIp

theorem reached_sourceIp (addr : SockAddr) (proc : Proc) (os : σ) (es : List Event) :
    (reached env addr proc os es).conn.sourceIp = fillSourceIp addr :=
  Runs.run_inv (P := fun s => s.conn.sourceIp = fillSourceIp addr) (fun e s h => (step_sourceIp env e s).trans h) es rfl

end CftpServer.Session
