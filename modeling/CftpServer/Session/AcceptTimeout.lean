import CftpServer.Session.Ownership

/-!
# The accept timeout of a listener

Every PASV and EPSV arms a timer for its listener, but `kill_listener_on_timeout` closes whichever listener is open,
and a second PASV does not disarm the timer of the first.

* `step_armed`: what keeps the pending timers those of the open listener
* `listener_lives_iff`: when a timer closes only the listener it was armed for
-/

namespace CftpServer.Session

open CLib Command Security Runs

variable {σ : Type} (env : Env σ)

/-- The timer was armed by the command that opened the listener. -/
def ArmedFor (log : List Effect) (t l : Nat) : Prop :=
  ∃ pre port post, log = pre ++ .listenerNew l port :: .timerNew t :: post

/-- Whichever timer runs out now, it closes no listener but the one it was armed for. -/
def ClosesOwn (s : Session σ) : Prop :=
  ∀ t l, Effect.listenerFree l ∈ newEffects s (step env (.timer t) s) → ArmedFor s.log t l

/-- The event is a PASV or EPSV that opens a listener. -/
def Opens (e : Event) (s : Session σ) : Prop :=
  ∃ chunk, e = .controlRead chunk ∧ chunk ≠ [] ∧ s.ended = none ∧
    (handlerOf s chunk = some .pasv ∨ handlerOf s chunk = some .epsv) ∧ (step env e s).conn.pasvListener ≠ none

/-- No timer of an earlier listener is pending when a listener is opened. -/
def NoTimerLeft (e : Event) (s : Session σ) : Prop :=
  Opens env e s → ∀ t, s.timers t ≠ some ⟨.killListenerOnTimeout, true⟩

/-- The timers that are pending were armed for the listener that is open. -/
structure Armed (s : Session σ) : Prop where
  owned : Owned s
  armedFor : ∀ t l, s.timers t = some ⟨.killListenerOnTimeout, true⟩ → s.conn.pasvListener = some l → ArmedFor s.log t l

section Armed

variable {s s' : Session σ}

theorem ArmedFor.append {log d : List Effect} {t l : Nat} (h : ArmedFor log t l) : ArmedFor (log ++ d) t l := by
  obtain ⟨pre, port, post, rfl⟩ := h
  exact ⟨pre, port, post ++ d, by simp⟩

/-- Objects are numbered in the order they are created. -/
theorem ArmedFor.lt {t l : Nat} (h : InOrder s) (ha : ArmedFor s.log t l) : l < t := by
  obtain ⟨pre, port, post, hlog⟩ := ha
  have hp := h.numbers
  rw [hlog, List.filterMap_append] at hp
  have hp' := (List.pairwise_append.mp (List.pairwise_append.mp hp).1).2.1
  exact (List.pairwise_cons.mp hp').1 t List.mem_cons_self

theorem armedFor_of_calm (h : Armed s) (hc : Calm s s') (hp : s'.conn.pasvListener = s.conn.pasvListener) {t l : Nat}
    (ht : s'.timers t = some ⟨.killListenerOnTimeout, true⟩) (hl : s'.conn.pasvListener = some l) :
    ArmedFor s'.log t l := by
  obtain ⟨d, hlog, -⟩ := hc.log
  rw [hlog]
  rcases hc.timers t with heq | ⟨timer, -, heq⟩
  · exact (h.armedFor t l (heq.symm.trans ht) (hp.symm.trans hl)).append
  · rw [heq, Option.some.injEq, Timer.mk.injEq] at ht
    exact absurd ht.2 Bool.false_ne_true

theorem killTimer_step {t : Nat} (hs : s.ended = none) (ht : s.timers t = some ⟨.killListenerOnTimeout, true⟩) :
    step env (.timer t) s = killListenerOnTimeout env (timerFires t ⟨.killListenerOnTimeout, true⟩ s) := by
  rw [step_handle hs]
  simp only [handle, ht, if_true]
  rfl

/-- What a timer closes is the listener the connection has. -/
theorem killTimer_effects {t : Nat} (h : ListenerOk s) (hs : s.ended = none)
    (ht : s.timers t = some ⟨.killListenerOnTimeout, true⟩) :
    newEffects s (step env (.timer t) s) = s.conn.pasvListener.toList.map Effect.listenerFree := by
  rw [killTimer_step env hs ht]
  exact newEffects_eq (dropListener_dropped env (s := timerFires t ⟨.killListenerOnTimeout, true⟩ s) h).log

theorem Armed.closesOwn (h : Armed s) : ClosesOwn env s := by
  intro t l hmem
  rcases step_moves env (.timer t) s with hm | ⟨hs, hsp⟩
  · obtain ⟨d, hlog, hd⟩ := (Calm.of_moves env hm).log
    rw [newEffects_eq hlog] at hmem
    exact absurd (hd _ hmem).freedListener (Option.some_ne_none l)
  · have ht : s.timers t = some ⟨.killListenerOnTimeout, true⟩ := by
      generalize step env (.timer t) s = s' at hsp
      cases hsp with
      | timer ht => exact ht
    rw [killTimer_effects env h.owned.listenerOk hs ht, List.mem_map] at hmem
    obtain ⟨l', hl', heq⟩ := hmem
    cases heq
    exact h.armedFor t l ht (Option.mem_toList.mp hl')

/-- What PASV and EPSV come to. -/
theorem opens_step {e : Event} (h : Owned s) (ho : Opens env e s) : Opened s (step env e s) := by
  obtain ⟨chunk, rfl, hne, hs, ha, hp⟩ := ho
  have hrec : Owned (received s chunk) := h.of_calm (.of_eq rfl rfl rfl le_rfl) rfl rfl rfl
  obtain ⟨extended, heq⟩ : ∃ extended, step env (.controlRead chunk) s =
      dataConnectionListenerConfig env extended (received s chunk) := by
    have hstep : step env (.controlRead chunk) s = runCommand env chunk s := by
      rw [step_handle hs, handle, if_neg hne]
      rfl
    rw [hstep, runCommand]
    rcases ha with ha | ha
    · exact ⟨false, by rw [ha]; rfl⟩
    · exact ⟨true, by rw [ha]; rfl⟩
  rw [heq] at hp ⊢
  obtain ⟨-, hopen | hno⟩ := listenerConfig_outcome env extended hrec hs
  · exact ⟨hopen.pasvListener, hopen.timeoutEvent, hopen.timers, hopen.log, hopen.ended⟩
  · exact absurd hno.pasvListener hp

/-- A timer that is left closes the new listener. -/
theorem Armed.noTimerLeft {e : Event} (h : Armed s) (hq : ClosesOwn env (step env e s)) : NoTimerLeft env e s := by
  intro ho t ht
  have hopen := opens_step env h.owned ho
  have hlt : t < s.nextId := h.owned.inOrder.timers.lt (by rw [ht]; rfl)
  have ht' : (step env e s).timers t = some ⟨.killListenerOnTimeout, true⟩ := by
    rw [hopen.timers, Function.update_of_ne (by omega)]
    exact ht
  have hown := step_owned env e h.owned
  have hmem : Effect.listenerFree s.nextId ∈ newEffects (step env e s) (step env (.timer t) (step env e s)) := by
    rw [killTimer_effects env hown.listenerOk hopen.ended ht', hopen.pasvListener]
    exact List.mem_cons_self
  exact absurd ((hq t s.nextId hmem).lt hown.inOrder) (by omega)

/-- One event, if it leaves no timer behind. -/
theorem step_armed (e : Event) (h : Armed s) (hg : NoTimerLeft env e s) : Armed (step env e s) := by
  refine ⟨step_owned env e h.owned, fun t l ht hl => ?_⟩
  rcases step_moves env e s with hm | ⟨hs, hsp⟩
  · exact armedFor_of_calm h (.of_moves env hm) (congrArg Fixed.pasvListener hm.fixed) ht hl
  · have hrec : ∀ chunk, Owned (received s chunk) := fun chunk =>
      h.owned.of_calm (.of_eq rfl rfl rfl le_rfl) rfl rfl rfl
    have hreply : ∀ {n text}, ∀ e ∈ [Effect.reply n text], e.Plain := by
      intro n text e he
      rw [List.mem_singleton.mp he]
      exact ⟨rfl, rfl, rfl, rfl⟩
    generalize hs' : step env e s = s' at hsp ht hl ⊢
    cases hsp with
    | prot =>
      refine armedFor_of_calm h ?_ ?_ ht hl
      · exact .of_log [_] hreply rfl rfl rfl le_rfl
      · rfl
    | user =>
      refine armedFor_of_calm h ?_ ?_ ht hl
      · exact .of_log [_] hreply rfl rfl rfl le_rfl
      · rfl
    | @pass chunk arg hne ha hargs =>
      have hna : (received s chunk).conn.authenticated = false := by
        rw [← Bool.not_eq_true]
        intro hauth
        change s.conn.authenticated = true at hauth
        rw [handlerOf, hauth] at ha
        exact absurd rfl (actionFor_authenticated ha).2
      rw [((hrec chunk).pass env hna hargs).2] at hl
      cases hl
    | @passive chunk extended hne ha =>
      have ho : Opens env (.controlRead chunk) s := by
        refine ⟨chunk, rfl, hne, hs, ?_, by rw [hs', hl]; exact Option.some_ne_none l⟩
        cases extended with
        | true => exact .inr ha
        | false => exact .inl ha
      have hopen := opens_step env h.owned ho
      rw [hs'] at hopen
      rw [hopen.timers] at ht
      rw [hopen.pasvListener, Option.some.injEq] at hl
      by_cases hnew : t = s.nextId + 1
      · obtain ⟨d, port, d', hlog⟩ := hopen.log
        rw [← hl, hnew]
        exact ⟨s.log ++ d, port, d', hlog⟩
      · rw [Function.update_of_ne hnew] at ht
        exact absurd ht (hg ho t)
    | accept hlive hp =>
      rw [(h.owned.accept env hs hlive hp).2] at hl
      cases hl
    | timer =>
      rw [killListenerOnTimeout, Extends.dropListener_pasvListener] at hl
      cases hl

end Armed

theorem start_armed (addr : SockAddr) (proc : Proc) (os : σ) : Armed (start env addr proc os) :=
  ⟨start_owned env addr proc os, fun _ _ _ hl => by cases hl⟩

/-- **The accept timeout.** In every state of a run a timer that runs out closes only the listener it was armed for,
exactly when no PASV or EPSV of the run opens a listener while the timer of an earlier one is pending. -/
theorem listener_lives_iff (addr : SockAddr) (proc : Proc) (os : σ) (es : List Event) :
    (∀ pre, pre <+: es → ClosesOwn env (reached env addr proc os pre)) ↔
      Guarded (step env) (NoTimerLeft env) es (start env addr proc os) :=
  forall_prefix_iff_guarded (fun _ h => h.closesOwn env) (fun _ _ h hq => h.noTimerLeft env hq)
    (fun e _ h hg => step_armed env e h hg) es (start_armed env addr proc os)

/-- PASV twice: the timer of the first closes the listener of the second. -/
theorem old_timer_closes_new_listener :
    ¬ ∀ (σ : Type) (env : Env σ) (addr : SockAddr) (proc : Proc) (os : σ) (es : List Event),
      ClosesOwn env (reached env addr proc os es) := by
  intro h
  have hown := h Unit Env.permissive (.inet 127 0 0 1) ⟨ascii "/", ascii "/", 0, 0, []⟩ ()
    [.controlRead (ascii "USER alice\r\n"), .controlRead (ascii "PASS x\r\n"), .controlRead (ascii "PASV\r\n"),
      .controlRead (ascii "PASV\r\n")] 2 3 (by decide)
  exact absurd (hown.lt (reached_owned _ _ _ _ _).inOrder) (by decide)

end CftpServer.Session
