import CftpServer.Session.Passive
import CftpServer.Session.Identity
import CftpServer.Lib.Ledger

/-!
# Listeners and timers

`timeout_event` is the login timer first and later the timer of the newest listener; it is never reset when its timer is
freed. `Owned` links it to the listener and the login, and the tables of the session to its log.

* `step_owned`: every event keeps `Owned`
* `timers_and_listeners_owned`: nothing is freed twice, over every run
-/

namespace CftpServer

open CLib

/-! ## What effects do to listeners and timers -/

namespace Effect

def newListener : Effect → Option Nat
  | .listenerNew l _ => some l
  | _ => none

def freedListener : Effect → Option Nat
  | .listenerFree l => some l
  | _ => none

def newTimer : Effect → Option Nat
  | .timerNew t => some t
  | _ => none

def freedTimer : Effect → Option Nat
  | .timerFree t => some t
  | _ => none

/-- The number of a new listener or timer. -/
def number (e : Effect) : Option Nat := e.newListener.or e.newTimer

/-- Neither listeners nor timers are touched. -/
structure Plain (e : Effect) : Prop where
  newListener : e.newListener = none
  freedListener : e.freedListener = none
  newTimer : e.newTimer = none
  freedTimer : e.freedTimer = none

end Effect

namespace Session

open Command Security Runs Ledger Growth

variable {σ : Type} (env : Env σ)

/-- The tables of listeners and timers say what the log says, and nothing in the log was freed twice. -/
structure InOrder (s : Session σ) : Prop where
  listeners : Books Effect.newListener Effect.freedListener s.log (fun l => s.listeners l = true) s.nextId
  timers : Books Effect.newTimer Effect.freedTimer s.log (fun t => (s.timers t).isSome = true) s.nextId
  numbers : (s.log.filterMap Effect.number ++ [s.nextId]).Pairwise (· < ·)

/-- Listeners and timers are left alone, but that a timer may run out. -/
structure Calm (s s' : Session σ) : Prop where
  log : ∃ d, s'.log = s.log ++ d ∧ ∀ e ∈ d, e.Plain
  listeners : s'.listeners = s.listeners
  timers : ∀ t, s'.timers t = s.timers t ∨
    ∃ timer, s.timers t = some timer ∧ s'.timers t = some { timer with pending := false }
  nextId : s.nextId ≤ s'.nextId

section Calm

variable {s s' s'' : Session σ}

theorem Calm.of_log (d : List Effect) (hd : ∀ e ∈ d, e.Plain) (hlog : s'.log = s.log ++ d)
    (hlisteners : s'.listeners = s.listeners) (htimers : s'.timers = s.timers) (hid : s.nextId ≤ s'.nextId) :
    Calm s s' :=
  ⟨⟨d, hlog, hd⟩, hlisteners, fun t => .inl (by rw [htimers]), hid⟩

theorem Calm.of_eq (hlog : s'.log = s.log) (hlisteners : s'.listeners = s.listeners) (htimers : s'.timers = s.timers)
    (hid : s.nextId ≤ s'.nextId) : Calm s s' :=
  of_log [] (List.forall_mem_nil _) (by rw [hlog, List.append_nil]) hlisteners htimers hid

theorem Calm.trans (h : Calm s s') (h' : Calm s' s'') : Calm s s'' where
  log := Grown.trans h.log h'.log
  listeners := h'.listeners.trans h.listeners
  timers t := by
    rcases h.timers t with ht | ⟨timer, ht, ht'⟩
    · rw [← ht]
      exact h'.timers t
    · refine .inr ⟨timer, ht, ?_⟩
      rcases h'.timers t with heq | ⟨timer', heq, heq'⟩
      · rw [heq, ht']
      · rw [ht', Option.some.injEq] at heq
        rw [heq', ← heq]
  nextId := h.nextId.trans h'.nextId

theorem plain_of_inert {C : Call → Prop} {e : Effect} (he : Inert C e) : e.Plain := by
  cases e <;> first | exact ⟨rfl, rfl, rfl, rfl⟩ | exact he.elim

/-- One move. -/
theorem Calm.of_move {C : Call → Prop} (h : Move env C s s') : Calm s s' := by
  cases h with
  | keep hk =>
    exact .of_eq (congrArg Durable.log hk) (congrArg (fun d => d.toFixed.listeners) hk) (congrArg Durable.timers hk)
      (le_of_eq (congrArg Durable.nextId hk).symm)
  | fresh => exact .of_eq rfl rfl rfl (Nat.le_succ _)
  | did he => exact .of_log [_] (List.forall_mem_singleton.mpr (plain_of_inert he)) rfl rfl rfl le_rfl
  | bev hv ht => exact .of_eq rfl rfl rfl le_rfl
  | wrote bytes hb =>
    exact .of_log [_] (List.forall_mem_singleton.mpr ⟨rfl, rfl, rfl, rfl⟩) rfl rfl rfl le_rfl
  | stored fd bytes hb =>
    exact .of_log [_] (List.forall_mem_singleton.mpr ⟨rfl, rfl, rfl, rfl⟩) rfl rfl rfl le_rfl
  | @fired t timer ht =>
    refine ⟨Grown.refl, rfl, fun t' => ?_, le_rfl⟩
    by_cases heq : t' = t
    · subst heq
      exact .inr ⟨timer, ht, Function.update_self ..⟩
    · exact .inl (Function.update_of_ne heq ..)
  | closed =>
    by_cases hgone : ∀ b, s.conn.dataBev = some b → s.bevs b = none
    · have hd := closeDataConnection_gone env hgone
      exact .of_eq (congrArg Durable.log hd) (congrArg (fun d => d.toFixed.listeners) hd) (congrArg Durable.timers hd)
        (le_of_eq (congrArg Durable.nextId hd).symm)
    · push Not at hgone
      obtain ⟨b, hb, hv⟩ := hgone
      obtain ⟨v, hv⟩ := Option.ne_none_iff_exists'.mp hv
      obtain ⟨d, os, heq, hd⟩ := closeDataConnection_live env hb hv
      rw [heq]
      refine .of_log (.bevFree b v.output :: d) (fun e he => ?_) rfl rfl rfl le_rfl
      rcases List.mem_cons.mp he with rfl | he
      · exact ⟨rfl, rfl, rfl, rfl⟩
      · obtain ⟨fd, rfl⟩ := hd e he
        exact ⟨rfl, rfl, rfl, rfl⟩

theorem Calm.of_moves {C : Call → Prop} (h : Moves env C s s') : Calm s s' :=
  h.inv (P := Calm s) (fun hm hs => hs.trans (of_move env hm)) (.of_eq rfl rfl rfl le_rfl)

end Calm

/-! ## The books -/

namespace InOrder

variable {s s' : Session σ}

/-- Numbers go up. -/
theorem numbers_append (h : InOrder s) {d : List Effect} {n : Nat} (hd : ∀ e ∈ d, e.number = none) (hn : s.nextId ≤ n) :
    ((s.log ++ d).filterMap Effect.number ++ [n]).Pairwise (· < ·) := by
  rw [List.filterMap_append, List.filterMap_eq_nil_iff.mpr hd, List.append_nil]
  obtain ⟨hlog, -, hlt⟩ := List.pairwise_append.mp h.numbers
  refine List.pairwise_append.mpr ⟨hlog, List.pairwise_singleton _ n, fun a ha b hb => ?_⟩
  rw [List.mem_singleton.mp hb]
  exact lt_of_lt_of_le (hlt a ha _ (List.mem_singleton.mpr rfl)) hn

theorem numbers_create (h : InOrder s) {e : Effect} (he : e.number = some s.nextId) :
    ((s.log ++ [e]).filterMap Effect.number ++ [s.nextId + 1]).Pairwise (· < ·) := by
  have hfilter : (s.log ++ [e]).filterMap Effect.number = s.log.filterMap Effect.number ++ [s.nextId] := by
    simp [List.filterMap_append, he]
  rw [hfilter]
  refine List.pairwise_append.mpr ⟨h.numbers, List.pairwise_singleton _ _, fun a ha b hb => ?_⟩
  rw [List.mem_singleton.mp hb]
  rcases List.mem_append.mp ha with ha | ha
  · exact Nat.lt_succ_of_lt ((List.pairwise_append.mp h.numbers).2.2 a ha _ (List.mem_singleton.mpr rfl))
  · rw [List.mem_singleton.mp ha]
    exact Nat.lt_succ_self _

theorem of_calm (h : InOrder s) (hc : Calm s s') : InOrder s' := by
  obtain ⟨d, hlog, hd⟩ := hc.log
  have htimers : ∀ t, (s'.timers t).isSome = true ↔ (s.timers t).isSome = true := by
    intro t
    rcases hc.timers t with ht | ⟨timer, ht, ht'⟩
    · rw [ht]
    · rw [ht, ht']
      rfl
  refine ⟨?_, ?_, ?_⟩
  · rw [hlog]
    exact h.listeners.append (fun e he => ⟨(hd e he).newListener, (hd e he).freedListener⟩)
      (fun l => by rw [hc.listeners]) hc.nextId
  · rw [hlog]
    exact h.timers.append (fun e he => ⟨(hd e he).newTimer, (hd e he).freedTimer⟩) htimers hc.nextId
  · rw [hlog]
    exact h.numbers_append (fun e he => by rw [Effect.number, (hd e he).newListener, (hd e he).newTimer]; rfl) hc.nextId

/-- A new listener. -/
theorem newListener (h : InOrder s) {port : Nat} (hlog : s'.log = s.log ++ [.listenerNew s.nextId port])
    (hlisteners : s'.listeners = Function.update s.listeners s.nextId true) (htimers : s'.timers = s.timers)
    (hid : s'.nextId = s.nextId + 1) : InOrder s' := by
  refine ⟨?_, ?_, ?_⟩
  · rw [hlog, hid]
    refine h.listeners.create rfl rfl fun l => ?_
    by_cases hl : l = s.nextId <;> simp [hlisteners, hl]
  · rw [hlog, hid, htimers]
    exact h.timers.append (List.forall_mem_singleton.mpr ⟨rfl, rfl⟩) (fun _ => Iff.rfl)
      (Nat.le_succ _)
  · rw [hlog, hid]
    exact h.numbers_create rfl

/-- A new timer. -/
theorem newTimer (h : InOrder s) {timer : Timer} (hlog : s'.log = s.log ++ [.timerNew s.nextId])
    (hlisteners : s'.listeners = s.listeners) (htimers : s'.timers = Function.update s.timers s.nextId (some timer))
    (hid : s'.nextId = s.nextId + 1) : InOrder s' := by
  refine ⟨?_, ?_, ?_⟩
  · rw [hlog, hid, hlisteners]
    exact h.listeners.append (List.forall_mem_singleton.mpr ⟨rfl, rfl⟩) (fun _ => Iff.rfl)
      (Nat.le_succ _)
  · rw [hlog, hid]
    refine h.timers.create rfl rfl fun t => ?_
    by_cases ht : t = s.nextId <;> simp [htimers, ht]
  · rw [hlog, hid]
    exact h.numbers_create rfl

/-- A listener is freed. -/
theorem freeListener (h : InOrder s) {l : Nat} (hl : s.listeners l = true) (hlog : s'.log = s.log ++ [.listenerFree l])
    (hlisteners : s'.listeners = Function.update s.listeners l false) (htimers : s'.timers = s.timers)
    (hid : s'.nextId = s.nextId) : InOrder s' := by
  refine ⟨?_, ?_, ?_⟩
  · rw [hlog, hid]
    refine h.listeners.free hl rfl rfl fun l' => ?_
    by_cases hne : l' = l <;> simp [hlisteners, hne]
  · rw [hlog, hid, htimers]
    exact h.timers.append (List.forall_mem_singleton.mpr ⟨rfl, rfl⟩) (fun _ => Iff.rfl) le_rfl
  · rw [hlog, hid]
    exact h.numbers_append (List.forall_mem_singleton.mpr rfl) le_rfl

/-- A timer is freed. -/
theorem freeTimer (h : InOrder s) {t : Nat} (ht : (s.timers t).isSome = true) (hlog : s'.log = s.log ++ [.timerFree t])
    (hlisteners : s'.listeners = s.listeners) (htimers : s'.timers = Function.update s.timers t none)
    (hid : s'.nextId = s.nextId) : InOrder s' := by
  refine ⟨?_, ?_, ?_⟩
  · rw [hlog, hid, hlisteners]
    exact h.listeners.append (List.forall_mem_singleton.mpr ⟨rfl, rfl⟩) (fun _ => Iff.rfl) le_rfl
  · rw [hlog, hid]
    refine h.timers.free ht rfl rfl fun t' => ?_
    by_cases hne : t' = t <;> simp [htimers, hne]
  · rw [hlog, hid]
    exact h.numbers_append (List.forall_mem_singleton.mpr rfl) le_rfl

end InOrder

/-! ## The field `timeout_event` -/

/-- The first object of a session is the timer of its login. -/
def loginTimer : Nat := 0

/-- Listeners and timers are in order, and `timeout_event` is one that can be freed when it is going to be: with an open
listener, and before the login. -/
structure Owned (s : Session σ) : Prop where
  inOrder : InOrder s
  listenerOk : ListenerOk s
  armed : s.conn.pasvListener ≠ none → ∃ t, s.conn.timeoutEvent = some t ∧ (s.timers t).isSome = true
  login : s.conn.authenticated = false → s.conn.pasvListener = none ∧ s.conn.timeoutEvent = some loginTimer ∧
    ∃ pending, s.timers loginTimer = some ⟨.terminateProcessOnTimeout, pending⟩
  timeoutEvent : s.conn.timeoutEvent ≠ none

section Owned

variable {s s' : Session σ}

theorem Owned.of_calm (h : Owned s) (hc : Calm s s') (hp : s'.conn.pasvListener = s.conn.pasvListener)
    (ht : s'.conn.timeoutEvent = s.conn.timeoutEvent) (ha : s'.conn.authenticated = s.conn.authenticated) :
    Owned s' where
  inOrder := h.inOrder.of_calm hc
  listenerOk l := by
    rw [hc.listeners, hp]
    exact h.listenerOk l
  armed hne := by
    rw [hp] at hne
    obtain ⟨t, hte, hlive⟩ := h.armed hne
    refine ⟨t, ht.trans hte, ?_⟩
    rcases hc.timers t with heq | ⟨timer, -, heq⟩
    · rw [heq]
      exact hlive
    · rw [heq]
      rfl
  login hna := by
    rw [ha] at hna
    obtain ⟨hp', hte, pending, htimer⟩ := h.login hna
    refine ⟨hp.trans hp', ht.trans hte, ?_⟩
    rcases hc.timers loginTimer with heq | ⟨timer, htimer', heq⟩
    · exact ⟨pending, heq.trans htimer⟩
    · rw [htimer, Option.some.injEq] at htimer'
      exact ⟨false, by rw [heq, ← htimer']⟩
  timeoutEvent := by
    rw [ht]
    exact h.timeoutEvent

/-- There is no other listener than the one closed. -/
theorem ListenerOk.freed (h : ListenerOk s) {l : Nat} (hl : s.listeners l = true) (l' : Nat) :
    Function.update s.listeners l false l' = false := by
  by_cases hne : l' = l
  · rw [hne, Function.update_self]
  · rw [Function.update_of_ne hne, ← Bool.not_eq_true]
    intro hl'
    have hsame := (h l').mp hl'
    rw [(h l).mp hl, Option.some.injEq] at hsame
    exact hne hsame.symm

/-- The listener there was is closed. -/
structure Dropped (s s' : Session σ) : Prop where
  log : s'.log = s.log ++ s.conn.pasvListener.toList.map Effect.listenerFree
  listeners : ∀ l, s'.listeners l = false
  timers : s'.timers = s.timers
  conn : s'.conn = { s.conn with pasvListener := none }
  nextId : s'.nextId = s.nextId
  ended : s'.ended = s.ended
  inOrder : InOrder s → InOrder s'

theorem dropListener_dropped (h : ListenerOk s) : Dropped s (dropListener env s) := by
  cases hp : s.conn.pasvListener with
  | none =>
    have heq : dropListener env s = s := by rw [dropListener, hp]
    rw [heq]
    refine ⟨by rw [hp]; exact (List.append_nil _).symm, fun l => ?_, rfl, by rw [← hp], rfl, rfl, id⟩
    rw [← Bool.not_eq_true, h l, hp]
    exact (Option.some_ne_none l).symm
  | some l =>
    have hl := (h l).mpr hp
    have heq : dropListener env s = emit env (.listenerFree l) { s with
        listeners := Function.update s.listeners l false
        conn := { s.conn with pasvListener := none } } := by
      simp only [dropListener, hp, listenerFree, if_pos hl]
      rfl
    rw [heq]
    exact ⟨by rw [hp]; rfl, h.freed hl, rfl, rfl, rfl, rfl, fun ho => ho.freeListener hl rfl rfl rfl rfl⟩

theorem Owned.dropListener (h : Owned s) : Owned (dropListener env s) := by
  have hd := dropListener_dropped env h.listenerOk
  refine ⟨hd.inOrder h.inOrder, fun l => ?_, ?_, fun ha => ?_, ?_⟩
  · rw [hd.listeners, hd.conn]
    simp
  · rw [hd.conn]
    exact fun hne => absurd rfl hne
  · rw [hd.conn] at ha ⊢
    rw [hd.timers]
    exact ⟨rfl, (h.login ha).2⟩
  · rw [hd.conn]
    exact h.timeoutEvent

end Owned

/-! ## A new listener -/

/-- The ports are tried one by one, and at most one listener comes of it. -/
theorem portLoop_outcome (fuel : Nat) : ∀ (port : Nat) (s : Session σ), s.conn.pasvListener = none →
    ∃ d, (∀ e ∈ d, ∃ p, e = Effect.bind p) ∧ (portLoop env fuel port s).2.timers = s.timers ∧
      (portLoop env fuel port s).2.conn.timeoutEvent = s.conn.timeoutEvent ∧
      (((portLoop env fuel port s).2.conn.pasvListener = none ∧ (portLoop env fuel port s).2.log = s.log ++ d ∧
          (portLoop env fuel port s).2.listeners = s.listeners ∧ (portLoop env fuel port s).2.nextId = s.nextId) ∨
        ∃ p, (portLoop env fuel port s).2.conn.pasvListener = some s.nextId ∧
          (portLoop env fuel port s).2.log = s.log ++ d ++ [.listenerNew s.nextId p] ∧
          (portLoop env fuel port s).2.listeners = Function.update s.listeners s.nextId true ∧
          (portLoop env fuel port s).2.nextId = s.nextId + 1 ∧ (portLoop env fuel port s).2.ended = s.ended) := by
  induction fuel with
  | zero =>
    intro port s hp
    exact ⟨[], List.forall_mem_nil _, rfl, rfl, .inl ⟨hp, (List.append_nil _).symm, rfl, rfl⟩⟩
  | succ fuel ih =>
    intro port s hp
    unfold portLoop
    split
    · by_cases hb : env.newBind s.os port = true
      · have heq : tryPort env port s = fresh (emit env (.listenerNew s.nextId port)
            { emit env (.bind port) s with
              listeners := Function.update s.listeners s.nextId true
              conn := { s.conn with pasvListener := some s.nextId } }) := by
          rw [tryPort, if_pos hb]
        simp only [heq]
        exact ⟨[.bind port], fun e he => ⟨port, List.mem_singleton.mp he⟩, rfl, rfl,
          .inr ⟨port, rfl, rfl, rfl, rfl, rfl⟩⟩
      · have heq : tryPort env port s = emit env (.bind port) s := by
          rw [tryPort, if_neg hb, ← hp]
          rfl
        have hno : (emit env (.bind port) s).conn.pasvListener.isSome = false := by rw [emit, hp]; rfl
        simp only [heq, hno, Bool.false_eq_true, if_false]
        obtain ⟨d, hd, htimers, hte, hcase⟩ := ih ((port + 1) % 2 ^ 16) (emit env (.bind port) s) hp
        refine ⟨.bind port :: d, fun e he => ?_, htimers, hte, ?_⟩
        · rcases List.mem_cons.mp he with rfl | he
          · exact ⟨port, rfl⟩
          · exact hd e he
        · have hlog : ∀ d', (emit env (.bind port) s).log ++ d' = s.log ++ .bind port :: d' := by
            intro d'
            rw [emit, List.append_assoc, List.singleton_append]
          rw [hlog] at hcase
          exact hcase
    · exact ⟨[], List.forall_mem_nil _, rfl, rfl, .inl ⟨hp, (List.append_nil _).symm, rfl, rfl⟩⟩

/-- PASV or EPSV has opened a listener, and armed a timer for it. -/
structure Opened (s s' : Session σ) : Prop where
  pasvListener : s'.conn.pasvListener = some s.nextId
  timeoutEvent : s'.conn.timeoutEvent = some (s.nextId + 1)
  timers : s'.timers = Function.update s.timers (s.nextId + 1) (some ⟨.killListenerOnTimeout, true⟩)
  log : ∃ d port d', s'.log = s.log ++ d ++ .listenerNew s.nextId port :: .timerNew (s.nextId + 1) :: d'
  ended : s'.ended = none

/-- It has not. -/
structure NotOpened (s s' : Session σ) : Prop where
  pasvListener : s'.conn.pasvListener = none
  timeoutEvent : s'.conn.timeoutEvent = s.conn.timeoutEvent
  timers : s'.timers = s.timers

section Passive

variable {s s' : Session σ}

theorem bind_plain {d : List Effect} (hd : ∀ e ∈ d, ∃ p, e = Effect.bind p) : ∀ e ∈ d, e.Plain := by
  intro e he
  obtain ⟨p, rfl⟩ := hd e he
  exact ⟨rfl, rfl, rfl, rfl⟩

/-- A reply. -/
theorem sendControlMessage_calm (n : Nat) (text : Bytes) (s : Session σ) : Calm s (sendControlMessage env n text s) :=
  .of_log [.reply n text] (List.forall_mem_singleton.mpr ⟨rfl, rfl, rfl, rfl⟩) rfl rfl rfl le_rfl

/-- What PASV and EPSV do after the old listener is gone. -/
theorem listen_outcome (extended : Bool) (ip : UInt8 × UInt8 × UInt8 × UInt8) (h : InOrder s) (hs : s.ended = none)
    (hp : s.conn.pasvListener = none) :
    InOrder ((portLoop env env.spin env.pasvRange.start s).2.andThen
        (announcePort env extended ip (portLoop env env.spin env.pasvRange.start s).1)) ∧
      (Opened s ((portLoop env env.spin env.pasvRange.start s).2.andThen
          (announcePort env extended ip (portLoop env env.spin env.pasvRange.start s).1)) ∨
        NotOpened s ((portLoop env env.spin env.pasvRange.start s).2.andThen
          (announcePort env extended ip (portLoop env env.spin env.pasvRange.start s).1))) := by
  obtain ⟨d, hd, htimers, hte, hcase⟩ := portLoop_outcome env env.spin env.pasvRange.start s hp
  generalize portLoop env env.spin env.pasvRange.start s = r at htimers hte hcase
  obtain ⟨port, r⟩ := r
  dsimp only at htimers hte hcase ⊢
  rcases hcase with ⟨hnone, hlog, hlisteners, hid⟩ | ⟨p, hsome, hlog, hlisteners, hid, hended⟩
  · have hr : InOrder r := h.of_calm (.of_log d (bind_plain hd) hlog hlisteners htimers hid.ge)
    unfold Session.andThen
    split
    · exact ⟨hr, .inr ⟨hnone, hte, htimers⟩⟩
    · simp only [announcePort, hnone, Option.isNone_none, if_true]
      exact ⟨hr.of_calm (sendControlMessage_calm env _ _ r), .inr ⟨hnone, hte, htimers⟩⟩
  · -- the books after the ports that failed, then the listener, then the timer
    have h₁ : InOrder { s with log := s.log ++ d } := h.of_calm (.of_log d (bind_plain hd) rfl rfl rfl le_rfl)
    have hr : InOrder r := h₁.newListener hlog hlisteners htimers hid
    have ht : InOrder (timerNew env .killListenerOnTimeout r) := hr.newTimer rfl rfl rfl rfl
    have hopen : ∀ n text, Opened s (sendControlMessage env n text (timerNew env .killListenerOnTimeout r)) := by
      intro n text
      refine ⟨hsome, ?_, ?_, ⟨d, p, [.reply n text], ?_⟩, ?_⟩
      · exact congrArg some hid
      · change Function.update r.timers r.nextId _ = _
        rw [htimers, hid]
      · change r.log ++ [Effect.timerNew r.nextId] ++ [Effect.reply n text] = _
        rw [hlog, hid]
        simp
      · exact hended.trans hs
    have hrun : r.ended.isSome = false := by rw [hended, hs]; rfl
    simp only [Session.andThen, hrun, Bool.false_eq_true, if_false, announcePort, hsome, Option.isNone_some]
    split
    · exact ⟨ht.of_calm (sendControlMessage_calm env _ _ _), .inl (hopen _ _)⟩
    · exact ⟨ht.of_calm (sendControlMessage_calm env _ _ _), .inl (hopen _ _)⟩

theorem listenerConfig_outcome (extended : Bool) (h : Owned s) (hs : s.ended = none) :
    InOrder (dataConnectionListenerConfig env extended s) ∧
      (Opened s (dataConnectionListenerConfig env extended s) ∨
        NotOpened s (dataConnectionListenerConfig env extended s)) := by
  have hdrop := dropListener_dropped env h.listenerOk
  have h₁ := hdrop.inOrder h.inOrder
  have hp : (dropListener env s).conn.pasvListener = none := by rw [hdrop.conn]
  have hte : (dropListener env s).conn.timeoutEvent = s.conn.timeoutEvent := by rw [hdrop.conn]
  have hs₁ : (dropListener env s).ended = none := hdrop.ended.trans hs
  rw [dataConnectionListenerConfig, Session.andThen, if_neg (by simp [hs₁])]
  generalize dropListener env s = s₁ at hdrop h₁ hp hte hs₁ ⊢
  split
  · rename_i ip _
    obtain ⟨ho', hopen | hno⟩ := listen_outcome env extended ip h₁ hs₁ hp
    · refine ⟨ho', .inl ⟨?_, ?_, ?_, ?_, hopen.ended⟩⟩
      · rw [← hdrop.nextId]
        exact hopen.pasvListener
      · rw [← hdrop.nextId]
        exact hopen.timeoutEvent
      · rw [← hdrop.nextId, ← hdrop.timers]
        exact hopen.timers
      · obtain ⟨d, port, d', hlog'⟩ := hopen.log
        exact ⟨s.conn.pasvListener.toList.map Effect.listenerFree ++ d, port, d',
          by rw [hlog', hdrop.log, hdrop.nextId]; simp⟩
    · exact ⟨ho', .inr ⟨hno.pasvListener, hno.timeoutEvent.trans hte, hno.timers.trans hdrop.timers⟩⟩
  · exact ⟨h₁.of_calm (sendControlMessage_calm env _ _ _), .inr ⟨hp, hte, hdrop.timers⟩⟩

theorem Owned.passive (extended : Bool) (h : Owned s) (hs : s.ended = none) (ha : s.conn.authenticated = true) :
    Owned (dataConnectionListenerConfig env extended s) := by
  obtain ⟨ho, hcase⟩ := listenerConfig_outcome env extended h hs
  have hx : Extends (fun _ => True) True s (dataConnectionListenerConfig env extended s) :=
    Extends.refl.dataConnectionListenerConfig env trivial
  refine ⟨ho, hx.listenerOk h.listenerOk, fun hne => ?_, fun hna => ?_, ?_⟩
  · rcases hcase with hopen | hno
    · refine ⟨_, hopen.timeoutEvent, ?_⟩
      rw [hopen.timers, Function.update_self]
      rfl
    · exact absurd hno.pasvListener hne
  · rw [hx.authenticated, ha] at hna
    cases hna
  · rcases hcase with hopen | hno
    · rw [hopen.timeoutEvent]
      exact Option.some_ne_none _
    · rw [hno.timeoutEvent]
      exact h.timeoutEvent

end Passive

/-! ## The timer is freed -/

section Freed

variable {s s' : Session σ}

/-- A session that is logged in and has no listener. -/
theorem InOrder.owned (h : InOrder s) (hno : ∀ l, s.listeners l = false) (hp : s.conn.pasvListener = none)
    (ha : s.conn.authenticated = true) (ht : s.conn.timeoutEvent ≠ none) : Owned s := by
  refine ⟨h, fun l => ?_, fun hne => absurd hp hne, fun hna => ?_, ht⟩
  · rw [hno, hp]
    simp
  · rw [ha] at hna
    cases hna

/-- The timer of such a session is freed. -/
theorem InOrder.freed (h : InOrder s) (hno : ∀ l, s.listeners l = false) (hp : s.conn.pasvListener = none)
    (ha : s.conn.authenticated = true) {t : Nat} (ht : s.conn.timeoutEvent = some t)
    (hlive : (s.timers t).isSome = true) :
    Owned (timeoutEventFree env s) ∧ (timeoutEventFree env s).conn.pasvListener = none := by
  have heq : timeoutEventFree env s =
      emit env (.timerFree t) { s with timers := Function.update s.timers t none } := by
    simp only [timeoutEventFree, ht, if_pos hlive]
  rw [heq]
  refine ⟨(h.freeTimer hlive ?_ ?_ ?_ ?_ : InOrder _).owned hno hp ha ?_, hp⟩
  any_goals rfl
  change s.conn.timeoutEvent ≠ none
  rw [ht]
  exact Option.some_ne_none t

theorem newDataBev_calm (s : Session σ) : Calm s (newDataBev env s) := by
  unfold newDataBev
  split
  · exact .of_log [_] (List.forall_mem_singleton.mpr ⟨rfl, rfl, rfl, rfl⟩) rfl rfl rfl (Nat.le_succ _)
  · exact .of_eq rfl rfl rfl le_rfl

theorem newDataBev_timers (s : Session σ) : (newDataBev env s).timers = s.timers ∧
    (newDataBev env s).conn.timeoutEvent = s.conn.timeoutEvent ∧
    (newDataBev env s).conn.pasvListener = s.conn.pasvListener ∧
    (newDataBev env s).conn.authenticated = s.conn.authenticated := by
  unfold newDataBev
  split <;> exact ⟨rfl, rfl, rfl, rfl⟩

/-- A client that passes the check takes the listener and its timer. -/
theorem Owned.accept {listener : Nat} {fd : Int} {addr : SockAddr} (h : Owned s) (hs : s.ended = none)
    (hl : s.listeners listener = true) (hp : samePeer s.conn.sourceIp addr = true) :
    Owned (dataConnectionAcceptCb env listener fd addr s) ∧
      (dataConnectionAcceptCb env listener fd addr s).conn.pasvListener = none := by
  have hpl := (h.listenerOk listener).mp hl
  obtain ⟨t, hte, hlive⟩ := h.armed (by rw [hpl]; exact Option.some_ne_none _)
  have ha : s.conn.authenticated = true := by
    rw [← Bool.not_eq_false]
    intro hna
    rw [(h.login hna).1] at hpl
    cases hpl
  -- `s₁` is the session when the listener is gone
  obtain ⟨s₁, hs₁, heq⟩ : ∃ s₁, s₁ = emit env (.listenerFree listener) { s with
      listeners := Function.update s.listeners listener false
      conn := { s.conn with dataActive := 0, pasvListener := none } } ∧
      dataConnectionAcceptCb env listener fd addr s =
        if (newDataBev env s₁).conn.dataBev.isNone then newDataBev env s₁
        else timeoutEventFree env { newDataBev env s₁ with conn := { (newDataBev env s₁).conn with
          dataActive := if (newDataBev env s₁).conn.dataTlsRequired then (newDataBev env s₁).conn.dataActive
            else (newDataBev env s₁).conn.dataActive + 1 } } := by
    refine ⟨_, rfl, ?_⟩
    simp only [dataConnectionAcceptCb, hp, Bool.not_true, Bool.false_eq_true, if_false, listenerFree, if_pos hl,
      Session.andThen, emit, hs, Option.isSome_none]
  have h₁ : InOrder s₁ := by
    rw [hs₁]
    exact h.inOrder.freeListener hl rfl rfl rfl rfl
  have hno : ∀ l, s₁.listeners l = false := by
    rw [hs₁]
    exact h.listenerOk.freed hl
  obtain ⟨htimers, hte₂, hpl₂, ha₂⟩ := newDataBev_timers env s₁
  have hc := newDataBev_calm env s₁
  have h₂ := h₁.of_calm hc
  have hno₂ : ∀ l, (newDataBev env s₁).listeners l = false := by
    rw [hc.listeners]
    exact hno
  have hpl' : (newDataBev env s₁).conn.pasvListener = none := by rw [hpl₂, hs₁]; rfl
  have ha' : (newDataBev env s₁).conn.authenticated = true := by rw [ha₂, hs₁]; exact ha
  have hte' : (newDataBev env s₁).conn.timeoutEvent = some t := by rw [hte₂, hs₁]; exact hte
  have hlive' : ((newDataBev env s₁).timers t).isSome = true := by rw [htimers, hs₁]; exact hlive
  rw [heq]
  split
  · refine ⟨h₂.owned hno₂ hpl' ha' ?_, hpl'⟩
    rw [hte']
    exact Option.some_ne_none t
  · exact InOrder.freed env (h₂.of_calm (.of_eq rfl rfl rfl le_rfl)) hno₂ hpl' ha' hte' hlive'

/-- PASS frees the login timer when it logs in. -/
theorem Owned.pass {cmd : CftpCommand} {arg : Bytes} (h : Owned s) (ha : s.conn.authenticated = false)
    (hargs : cmd.args = [arg]) : Owned (cftpPassAuthenticated env cmd s) ∧
      (cftpPassAuthenticated env cmd s).conn.pasvListener = none := by
  obtain ⟨hpl, hte, pending, htimer⟩ := h.login ha
  have hlive : (s.timers loginTimer).isSome = true := by rw [htimer]; rfl
  have hno : ∀ l, s.listeners l = false := by
    intro l
    rw [← Bool.not_eq_true, h.listenerOk l, hpl]
    exact (Option.some_ne_none l).symm
  have hc : Calm s (loggedIn env arg s) :=
    .of_log [_] (List.forall_mem_singleton.mpr ⟨rfl, rfl, rfl, rfl⟩) rfl rfl rfl le_rfl
  rw [cftpPassAuthenticated, hargs]
  dsimp only
  split
  · have hc' : Calm s (sendControlMessage env 230 (ascii "User logged in") (loggedIn env arg s)) :=
      hc.trans (sendControlMessage_calm env _ _ _)
    exact InOrder.freed env ((h.inOrder.of_calm hc').of_calm (.of_eq rfl rfl rfl le_rfl)) hno hpl rfl hte hlive
  · exact ⟨h.of_calm (hc.trans (sendControlMessage_calm env _ _ _)) rfl rfl rfl, hpl⟩

end Freed

/-! ## Every event -/

/-- **One event** keeps listeners and timers in order. -/
theorem step_owned (e : Event) {s : Session σ} (h : Owned s) : Owned (step env e s) := by
  rcases step_moves env e s with hm | ⟨hs, hsp⟩
  · have hf := hm.fixed
    exact h.of_calm (.of_moves env hm) (congrArg Fixed.pasvListener hf) (congrArg Fixed.timeoutEvent hf)
      (congrArg (fun f => f.toIdentity.authenticated) hf)
  · generalize step env e s = s' at hsp ⊢
    have hrec : ∀ chunk, Owned (received s chunk) := fun chunk => h.of_calm (.of_eq rfl rfl rfl le_rfl) rfl rfl rfl
    cases hsp with
    | @prot chunk =>
      have hc : Owned { received s chunk with conn := { s.conn with dataTlsRequired := true } } :=
        (hrec chunk).of_calm (.of_eq rfl rfl rfl le_rfl) rfl rfl rfl
      exact hc.of_calm (sendControlMessage_calm env _ _ _) rfl rfl rfl
    | @user chunk arg username =>
      have hc : Owned { received s chunk with conn := { s.conn with username := username } } :=
        (hrec chunk).of_calm (.of_eq rfl rfl rfl le_rfl) rfl rfl rfl
      exact hc.of_calm (sendControlMessage_calm env _ _ _) rfl rfl rfl
    | @pass chunk arg hne ha hargs =>
      have hna : s.conn.authenticated = false := by
        rw [← Bool.not_eq_true]
        intro ht
        rw [handlerOf, ht] at ha
        exact absurd rfl (actionFor_authenticated ha).2
      exact ((hrec chunk).pass env hna hargs).1
    | @passive chunk extended hne ha =>
      refine (hrec chunk).passive env extended hs ?_
      rw [← Bool.not_eq_false]
      intro hna
      rw [handlerOf] at ha
      change s.conn.authenticated = false at hna
      rw [hna] at ha
      obtain ⟨-, hepsv, hpasv, -⟩ := actionFor_unauthenticated ha
      cases extended with
      | true => exact hepsv rfl
      | false => exact hpasv rfl
    | accept hl hp => exact (h.accept env hs hl hp).1
    | timer ht =>
      have hc : Owned (timerFires _ ⟨.killListenerOnTimeout, true⟩ s) :=
        h.of_calm (.of_move env (.fired (C := fun _ => True) ht)) rfl rfl rfl
      exact hc.dropListener env

theorem start_owned (addr : SockAddr) (proc : Proc) (os : σ) : Owned (start env addr proc os) := by
  have h₀ : InOrder (⟨newConnection addr, [], [], fun _ => none, fun _ => false, fun _ => none, 0, proc, os, [], none⟩ :
      Session σ) := by
    refine ⟨?_, ?_, List.pairwise_singleton _ 0⟩
    · exact ⟨fun l => by simp [Live], orderly_nil, fun e he => by cases he⟩
    · exact ⟨fun t => by simp [Live], orderly_nil, fun e he => by cases he⟩
  have h₁ : InOrder (timerNew env .terminateProcessOnTimeout _) := h₀.newTimer rfl rfl rfl rfl
  refine ⟨h₁.of_calm (sendControlMessage_calm env _ _ _), fun l => ?_, fun hne => absurd rfl hne, fun _ => ?_, ?_⟩
  · simp [start, sendControlMessage, timerNew, emit, fresh, newConnection]
  · exact ⟨rfl, rfl, true, rfl⟩
  · exact Option.some_ne_none _

theorem reached_owned (addr : SockAddr) (proc : Proc) (os : σ) (es : List Event) :
    Owned (reached env addr proc os es) :=
  run_inv (P := Owned) (fun e _ h => step_owned env e h) es (start_owned env addr proc os)

/-- **Ownership.** In every state of a session at most one listener is open, and it is the one the connection knows;
every listener and every timer ever freed was created before and not freed yet; `timeout_event` is set; and until the
login it is the login timer, which has not been freed. -/
theorem timers_and_listeners_owned (addr : SockAddr) (proc : Proc) (os : σ) (es : List Event) :
    ListenerOk (reached env addr proc os es) ∧
      Orderly Effect.newListener Effect.freedListener (reached env addr proc os es).log ∧
      Orderly Effect.newTimer Effect.freedTimer (reached env addr proc os es).log ∧
      (reached env addr proc os es).conn.timeoutEvent ≠ none ∧
      ((reached env addr proc os es).conn.authenticated = false →
        (reached env addr proc os es).conn.timeoutEvent = (start env addr proc os).conn.timeoutEvent ∧
          ∀ t, (start env addr proc os).conn.timeoutEvent = some t →
            Live Effect.newTimer Effect.freedTimer (reached env addr proc os es).log t) := by
  have h := reached_owned env addr proc os es
  refine ⟨h.listenerOk, h.inOrder.listeners.orderly, h.inOrder.timers.orderly, h.timeoutEvent, fun ha => ?_⟩
  obtain ⟨-, hte, pending, htimer⟩ := h.login ha
  have hstart : (start env addr proc os).conn.timeoutEvent = some loginTimer := rfl
  refine ⟨hte.trans hstart.symm, fun t ht => ?_⟩
  rw [hstart, Option.some.injEq] at ht
  subst ht
  exact (h.inOrder.timers.live loginTimer).mp (by rw [htimer]; rfl)

end Session

end CftpServer
