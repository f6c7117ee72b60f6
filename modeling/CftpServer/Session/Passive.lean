import CftpServer.Session.Frame
import Mathlib.Data.Nat.Find

/-!
# The choice of a passive port

`data_connection_listener_config` counts through the configured range with a counter of 16 bits.

* `portLoop_fail`: ports that cannot be had are tried one after the other; after 65535 comes 0
* `found_selects`, `exhausted_selects`: the loop ends at the first port that can be had, or after the last one
* `wrapped_tries_zero`: a range that goes up to 65535 has no last one
* `passive_port_selected_iff`: the loop is right unless all ports of such a range are taken
-/

namespace CftpServer.Session

open CLib Runs

variable {σ : Type} (env : Env σ)

/-! ## The listener the connection knows -/

theorem step_listenerOk (e : Event) (s : Session σ) (h : ListenerOk s) : ListenerOk (step env e s) := by
  rcases step_extends env e s with hx | ⟨chunk, -, -, -, heq⟩ | ⟨chunk, username, -, -, hx⟩ | ⟨chunk, arg, -, -, -, hx⟩
  · exact hx.listenerOk h
  · rw [heq]
    exact h
  · exact hx.listenerOk h
  · exact hx.listenerOk h

/-- Over every run, a session listens on the listener of its connection and on no other. -/
theorem reached_listenerOk (addr : SockAddr) (proc : Proc) (os : σ) (es : List Event) :
    ListenerOk (reached env addr proc os es) := by
  refine run_inv (step_listenerOk env) es fun l => ?_
  simp [start, sendControlMessage, timerNew, emit, fresh, newConnection]

/-- So the old listener can be closed. -/
theorem dropListener_spec {s : Session σ} (h : ListenerOk s) (hs : s.ended = none) :
    (s.dropListener env).ended = none ∧ ∃ d, (s.dropListener env).log = s.log ++ d ∧
      ∀ e ∈ d, ∃ l, e = .listenerFree l := by
  unfold dropListener
  split
  · rename_i l hl
    have hopen := (h l).mpr hl
    simp only [listenerFree, if_pos hopen]
    exact ⟨hs, [.listenerFree l], rfl, fun e he => ⟨l, List.mem_singleton.mp he⟩⟩
  · exact ⟨hs, [], (List.append_nil _).symm, fun _ he => by cases he⟩

/-! ## The loop -/

/-- Ports that are tried in vain. -/
def bindAll (ports : List Nat) (s : Session σ) : Session σ := ports.foldl (fun s port => emit env (.bind port) s) s

theorem bindAll_spec (ports : List Nat) : ∀ s : Session σ, (bindAll env ports s).log = s.log ++ ports.map .bind ∧
    (bindAll env ports s).conn = s.conn ∧ (bindAll env ports s).ended = s.ended := by
  induction ports with
  | nil => intro s; simp [bindAll]
  | cons port ports ih =>
    intro s
    obtain ⟨hlog, hconn, hended⟩ := ih (emit env (.bind port) s)
    refine ⟨?_, hconn, hended⟩
    rw [bindAll, List.foldl_cons, ← bindAll, hlog]
    simp [emit]

theorem bindAll_concat (ports : List Nat) (port : Nat) (s : Session σ) :
    bindAll env (ports ++ [port]) s = emit env (.bind port) (bindAll env ports s) := by
  rw [bindAll, List.foldl_append]
  rfl

theorem tryPort_fail {port : Nat} {s : Session σ} (hb : env.newBind s.os port = false)
    (hp : s.conn.pasvListener = none) : tryPort env port s = emit env (.bind port) s := by
  unfold tryPort
  rw [if_neg (by simp [hb])]
  have hconn : { s.conn with pasvListener := none } = s.conn := by rw [← hp]
  rw [hconn]
  rfl

theorem tryPort_log (port : Nat) (s : Session σ) : ∃ d, (tryPort env port s).log = s.log ++ .bind port :: d := by
  unfold tryPort
  split
  · exact ⟨[.listenerNew s.nextId port], by simp [emit, fresh]⟩
  · exact ⟨[], rfl⟩

theorem tryPort_ended (port : Nat) (s : Session σ) : (tryPort env port s).ended = s.ended := by
  unfold tryPort
  split <;> rfl

/-- Whatever comes later, the first port is tried first. -/
theorem portLoop_log {port : Nat} {s : Session σ} (hport : port ≤ env.pasvRange.end) (fuel : Nat) :
    ∃ d, (portLoop env (fuel + 1) port s).2.log = s.log ++ .bind port :: d := by
  obtain ⟨d, hd⟩ := tryPort_log env port s
  rw [portLoop, if_pos hport]
  simp only []
  split
  · exact ⟨d, hd⟩
  · rename_i hnone
    have hx : Extends (fun _ => True) True (tryPort env port s)
        (portLoop env fuel ((port + 1) % 2 ^ 16) (tryPort env port s)).2 :=
      Extends.portLoop env trivial fuel _ (by simpa using hnone) .refl
    obtain ⟨d', hd', -⟩ := hx.log
    exact ⟨d ++ d', by rw [hd', hd]; simp⟩

/-- A round that fails. -/
theorem portLoop_round {fuel port : Nat} {s : Session σ} (hp : s.conn.pasvListener = none)
    (hport : port ≤ env.pasvRange.end) (hfail : env.newBind s.os port = false) :
    portLoop env (fuel + 1) port s = portLoop env fuel ((port + 1) % 2 ^ 16) (emit env (.bind port) s) := by
  rw [portLoop, if_pos hport, tryPort_fail env hfail hp]
  simp [emit, hp]

section Loop

variable {B : Nat → Bool} (hB : ∀ os port, env.newBind os port = B port)
include hB

/-- Rounds that fail, up to the end of the range. -/
theorem portLoop_fail {port : Nat} {s : Session σ} (hp : s.conn.pasvListener = none) (hport : port < 2 ^ 16)
    (hend : env.pasvRange.end < 2 ^ 16) (k : Nat) : ∀ fuel, port + k ≤ env.pasvRange.end + 1 →
    (∀ p, port ≤ p → p < port + k → B p = false) →
    portLoop env (k + fuel) port s = portLoop env fuel ((port + k) % 2 ^ 16) (bindAll env (List.range' port k) s) := by
  induction k with
  | zero =>
    intro fuel _ _
    rw [Nat.zero_add, Nat.add_zero, Nat.mod_eq_of_lt hport]
    rfl
  | succ k ih =>
    intro fuel hk hfail
    have hconn := (bindAll_spec env (List.range' port k) s).2.1
    rw [Nat.add_assoc k 1 fuel, Nat.add_comm 1 fuel, ih (fuel + 1) (by omega) fun p h₁ h₂ => hfail p h₁ (by omega),
      Nat.mod_eq_of_lt (by omega), portLoop_round env (by rw [hconn]; exact hp) (by omega)
        (by rw [hB]; exact hfail _ (by omega) (by omega)), List.range'_1_concat, bindAll_concat, Nat.add_assoc]

/-- The loop stops at a port that can be had. -/
theorem portLoop_found {k port : Nat} {s : Session σ} (hp : s.conn.pasvListener = none)
    (hk : port + k ≤ env.pasvRange.end) (hend : env.pasvRange.end < 2 ^ 16)
    (hfail : ∀ p, port ≤ p → p < port + k → B p = false) (hfound : B (port + k) = true) (fuel : Nat) :
    portLoop env (k + (fuel + 1)) port s =
      (port + k, tryPort env (port + k) (bindAll env (List.range' port k) s)) := by
  rw [portLoop_fail env hB hp (by omega) hend k (fuel + 1) (by omega) hfail, Nat.mod_eq_of_lt (by omega), portLoop,
    if_pos hk]
  generalize bindAll env (List.range' port k) s = s'
  have hsome : (tryPort env (port + k) s').conn.pasvListener.isSome = true := by
    simp [tryPort, hB, hfound, fresh, emit]
  simp only [hsome, if_true]

/-- It stops after the last port, if the counter can hold the one after that. -/
theorem portLoop_exhausted {k port : Nat} {s : Session σ} (hp : s.conn.pasvListener = none)
    (hk : port + k = env.pasvRange.end + 1) (hend : env.pasvRange.end + 1 < 2 ^ 16)
    (hfail : ∀ p, port ≤ p → p < port + k → B p = false) (fuel : Nat) :
    portLoop env (k + (fuel + 1)) port s = (port + k, bindAll env (List.range' port k) s) := by
  rw [portLoop_fail env hB hp (by omega) (by omega) k (fuel + 1) (by omega) hfail, Nat.mod_eq_of_lt (by omega),
    portLoop, if_neg (by omega)]

/-- Otherwise it goes on with port 0. -/
theorem portLoop_wraps {k port : Nat} {s : Session σ} (hp : s.conn.pasvListener = none)
    (hk : port + k = env.pasvRange.end + 1) (hport : port < 2 ^ 16) (hend : env.pasvRange.end + 1 = 2 ^ 16)
    (hfail : ∀ p, port ≤ p → p < port + k → B p = false) (fuel : Nat) :
    ∃ d, (portLoop env (k + (fuel + 1)) port s).2.log = s.log ++ d ∧ Effect.bind 0 ∈ d := by
  have hspec := bindAll_spec env (List.range' port k) s
  rw [portLoop_fail env hB hp hport (by omega) k (fuel + 1) (by omega) hfail, hk, hend, Nat.mod_self]
  obtain ⟨d, hd⟩ := portLoop_log env (s := bindAll env (List.range' port k) s) (Nat.zero_le _) fuel
  refine ⟨(List.range' port k).map .bind ++ .bind 0 :: d, ?_, by simp⟩
  rw [hd, hspec.1, List.append_assoc]

end Loop

/-! ## The reply -/

/-- The reply that announces a port. -/
def announcement (extended : Bool) (ip : UInt8 × UInt8 × UInt8 × UInt8) (port : Nat) : Nat × Bytes :=
  if extended then (229, extendedPassiveText port) else (227, passiveText ip port)

/-- The reply when there is no port. -/
def cannotOpen : Nat × Bytes := (425, ascii "Can't open passive connection")

/-- The ports tried from one state of a session to a later one. -/
def portsTried (s s' : Session σ) : List Nat :=
  (newEffects s s').filterMap fun
    | .bind port => some port
    | _ => none

/-- The replies sent from one state of a session to a later one. -/
def repliesSent (s s' : Session σ) : List (Nat × Bytes) :=
  (newEffects s s').filterMap fun
    | .reply statusCode text => some (statusCode, text)
    | _ => none

/-- The choice of a port in the range from `first` to `last`, where `B` says which ports can be had. -/
structure SelectsPort (B : Nat → Bool) (first last : Nat) (extended : Bool) (ip : UInt8 × UInt8 × UInt8 × UInt8)
    (s s' : Session σ) : Prop where
  ended : s'.ended = none
  increasing : (portsTried s s').Pairwise (· < ·)
  inRange : ∀ p ∈ portsTried s s', first ≤ p ∧ p ≤ last
  lowest : ∀ p, first ≤ p → p ≤ last → B p = true → (∀ q, first ≤ q → q < p → B q = false) →
    repliesSent s s' = [announcement extended ip p] ∧
      ∃ l, s'.conn.pasvListener = some l ∧ Effect.listenerNew l p ∈ newEffects s s'
  exhausted : (∀ p, first ≤ p → p ≤ last → B p = false) →
    s'.conn.pasvListener = none ∧ repliesSent s s' = [cannotOpen]

theorem announcePort_found {port : Nat} (extended : Bool) (ip : UInt8 × UInt8 × UInt8 × UInt8) (s : Session σ)
    (hb : env.newBind s.os port = true) : ∃ t,
      (announcePort env extended ip port (tryPort env port s)).log = s.log ++ [.bind port, .listenerNew s.nextId port,
        .timerNew t, .reply (announcement extended ip port).1 (announcement extended ip port).2] ∧
      (announcePort env extended ip port (tryPort env port s)).conn.pasvListener = some s.nextId ∧
      (announcePort env extended ip port (tryPort env port s)).ended = s.ended := by
  refine ⟨s.nextId + 1, ?_⟩
  cases extended <;> simp [announcePort, tryPort, hb, fresh, emit, timerNew, sendControlMessage, announcement]

theorem announcePort_none {port : Nat} (extended : Bool) (ip : UInt8 × UInt8 × UInt8 × UInt8) {s : Session σ}
    (hp : s.conn.pasvListener = none) :
    announcePort env extended ip port s = sendControlMessage env cannotOpen.1 cannotOpen.2 s := by
  simp [announcePort, hp, cannotOpen]

section Config

variable {B : Nat → Bool} {first last : Nat} {ip : UInt8 × UInt8 × UInt8 × UInt8} (extended : Bool) {s : Session σ}

/-- The range as the loop reads it. -/
theorem connectionsInitPasvRange_eq (hle : first ≤ last) (hfirst : 1024 ≤ first) (hlast : last ≤ 65535) :
    (connectionsInitPasvRange first last).start = first ∧ (connectionsInitPasvRange first last).end = last := by
  unfold connectionsInitPasvRange
  rw [if_neg (by omega)]
  simp only []
  rw [if_neg (by omega), if_neg (by omega)]
  omega

/-- Ports tried in their order are tried once each, and in the range. -/
theorem tried_range {k : Nat} {s s' : Session σ} (hk : first + k ≤ last + 1)
    (ht : portsTried s s' = List.range' first k) :
    (portsTried s s').Pairwise (· < ·) ∧ ∀ p ∈ portsTried s s', first ≤ p ∧ p ≤ last := by
  rw [ht]
  refine ⟨List.pairwise_lt_range', fun p hp => ?_⟩
  have := List.mem_range'_1.mp hp
  omega

/-- What is new after the old listener, tries and the last effects of a passive command. -/
theorem newEffects_passive {s s' : Session σ} {d d' : List Effect} {ports : List Nat}
    (hd : ∀ e ∈ d, ∃ l, e = .listenerFree l) (hlog : s'.log = s.log ++ d ++ ports.map .bind ++ d') :
    newEffects s s' = d ++ ports.map .bind ++ d' ∧
      portsTried s s' = ports ++ d'.filterMap (fun | .bind port => some port | _ => none) ∧
      repliesSent s s' = d'.filterMap (fun | .reply statusCode text => some (statusCode, text) | _ => none) := by
  have hnew : newEffects s s' = d ++ ports.map .bind ++ d' :=
    newEffects_eq (by rw [hlog, List.append_assoc, List.append_assoc, List.append_assoc])
  refine ⟨hnew, ?_, ?_⟩
  · rw [portsTried, hnew, List.filterMap_append, List.filterMap_append, List.filterMap_map,
      List.filterMap_eq_nil_iff.mpr, List.nil_append]
    · simp
    · intro e he
      obtain ⟨l, rfl⟩ := hd e he
      rfl
  · rw [repliesSent, hnew, List.filterMap_append, List.filterMap_append, List.filterMap_map,
      List.filterMap_eq_nil_iff.mpr, List.nil_append]
    · simp
    · intro e he
      obtain ⟨l, rfl⟩ := hd e he
      rfl

variable (hs : s.ended = none) (hok : ListenerOk s)
include hs hok

/-- The old listener is closed and ports are tried in vain. -/
theorem passive_tries (ports : List Nat) :
    (bindAll env ports (dropListener env s)).ended = none ∧
      (bindAll env ports (dropListener env s)).conn.pasvListener = none ∧
      ∃ d, (∀ e ∈ d, ∃ l, e = .listenerFree l) ∧
        (bindAll env ports (dropListener env s)).log = s.log ++ d ++ ports.map .bind := by
  obtain ⟨hended, d, hd, hfree⟩ := dropListener_spec env hok hs
  obtain ⟨hlog, hconn, hended'⟩ := bindAll_spec env ports (dropListener env s)
  exact ⟨hended'.trans hended, by rw [hconn]; exact Extends.dropListener_pasvListener env s, d, hfree, by rw [hlog, hd]⟩

variable (hip : ∀ os, env.getsockname os = some ip)
include hip

/-- A passive command: the old listener goes, then comes the loop, then the reply. -/
theorem listenerConfig_eq {port : Nat} {s₂ : Session σ}
    (hloop : portLoop env env.spin env.pasvRange.start (dropListener env s) = (port, s₂)) (hs₂ : s₂.ended = none) :
    dataConnectionListenerConfig env extended s = announcePort env extended ip port s₂ := by
  obtain ⟨hended, -⟩ := dropListener_spec env hok hs
  rw [dataConnectionListenerConfig, andThen, if_neg (by simp [hended]), hip]
  simp only [hloop]
  rw [andThen, if_neg (by simp [hs₂])]

variable (hB : ∀ os port, env.newBind os port = B port)
  (hstart : env.pasvRange.start = first) (hend : env.pasvRange.end = last)
include hB hstart hend

/-- The first port that can be had is announced. -/
theorem found_selects {k fuel : Nat} (hlast : last < 2 ^ 16) (hk : first + k ≤ last)
    (hfail : ∀ p, first ≤ p → p < first + k → B p = false) (hfound : B (first + k) = true)
    (hspin : env.spin = k + (fuel + 1)) :
    SelectsPort B first last extended ip s (dataConnectionListenerConfig env extended s) := by
  obtain ⟨hended, -, d, hfree, hlog⟩ := passive_tries env hs hok (List.range' first k)
  have hloop : portLoop env env.spin env.pasvRange.start (dropListener env s) =
      (first + k, tryPort env (first + k) (bindAll env (List.range' first k) (dropListener env s))) := by
    rw [hspin, hstart]
    exact portLoop_found env hB (Extends.dropListener_pasvListener env s) (by omega) (by omega) hfail hfound fuel
  rw [listenerConfig_eq env extended hs hok hip hloop (by rw [tryPort_ended]; exact hended)]
  generalize bindAll env (List.range' first k) (dropListener env s) = s₁ at hended hlog
  obtain ⟨t, hlog', hpasv, hended'⟩ := announcePort_found env extended ip s₁ (by rw [hB]; exact hfound)
  rw [hlog] at hlog'
  obtain ⟨hnew, htried, hsent⟩ := newEffects_passive hfree hlog'
  have htried' : portsTried s (announcePort env extended ip (first + k) (tryPort env (first + k) s₁)) =
      List.range' first (k + 1) := by
    rw [htried, List.range'_1_concat]
    rfl
  obtain ⟨hinc, hin⟩ := tried_range (show first + (k + 1) ≤ last + 1 by omega) htried'
  refine ⟨hended'.trans hended, hinc, hin, fun p hp _ hB' hlow => ?_, fun hall => ?_⟩
  · have hpk : p = first + k := by
      rcases Nat.lt_trichotomy p (first + k) with hlt | heq | hgt
      · rw [hfail p hp hlt] at hB'
        cases hB'
      · exact heq
      · rw [hlow (first + k) (by omega) hgt] at hfound
        cases hfound
    subst hpk
    exact ⟨hsent, s₁.nextId, hpasv, by rw [hnew]; simp⟩
  · rw [hall (first + k) (by omega) hk] at hfound
    cases hfound

/-- When no port can be had there is no listener, and the reply says so. -/
theorem exhausted_selects {fuel : Nat} (hle : first ≤ last) (hlast : last + 1 < 2 ^ 16)
    (hfail : ∀ p, first ≤ p → p ≤ last → B p = false) (hspin : env.spin = last + 1 - first + (fuel + 1)) :
    SelectsPort B first last extended ip s (dataConnectionListenerConfig env extended s) := by
  obtain ⟨hended, hpasv, d, hfree, hlog⟩ := passive_tries env hs hok (List.range' first (last + 1 - first))
  have hloop : portLoop env env.spin env.pasvRange.start (dropListener env s) =
      (first + (last + 1 - first), bindAll env (List.range' first (last + 1 - first)) (dropListener env s)) := by
    rw [hspin, hstart]
    exact portLoop_exhausted env hB (Extends.dropListener_pasvListener env s) (by omega) (by omega)
      (fun p h₁ h₂ => hfail p h₁ (by omega)) fuel
  rw [listenerConfig_eq env extended hs hok hip hloop hended, announcePort_none env extended ip hpasv]
  generalize bindAll env (List.range' first (last + 1 - first)) (dropListener env s) = s₁ at hended hpasv hlog
  have hlog' : (sendControlMessage env cannotOpen.1 cannotOpen.2 s₁).log =
      s.log ++ d ++ (List.range' first (last + 1 - first)).map .bind ++ [.reply cannotOpen.1 cannotOpen.2] := by
    rw [← hlog]
    rfl
  obtain ⟨-, htried, hsent⟩ := newEffects_passive hfree hlog'
  obtain ⟨hinc, hin⟩ := tried_range (show first + (last + 1 - first) ≤ last + 1 by omega) (by simpa using htried)
  refine ⟨hended, hinc, hin, fun p h₁ h₂ hB' _ => ?_, fun _ => ⟨hpasv, hsent⟩⟩
  rw [hfail p h₁ h₂] at hB'
  cases hB'

/-- A range up to 65535 without a port to be had: port 0 is tried. -/
theorem wrapped_tries_zero {fuel : Nat} (hle : first ≤ last) (hlast : last + 1 = 2 ^ 16)
    (hfail : ∀ p, first ≤ p → p ≤ last → B p = false) (hspin : env.spin = last + 1 - first + (fuel + 1)) :
    0 ∈ portsTried s (dataConnectionListenerConfig env extended s) := by
  obtain ⟨hended, d, hd, -⟩ := dropListener_spec env hok hs
  obtain ⟨d', hd', hzero⟩ := portLoop_wraps env hB (Extends.dropListener_pasvListener env s)
    (show first + (last + 1 - first) = _ by omega) (by omega) (by omega) (fun p h₁ h₂ => hfail p h₁ (by omega)) fuel
  have hx : Extends (fun _ => True) True (portLoop env env.spin env.pasvRange.start (dropListener env s)).2
      (dataConnectionListenerConfig env extended s) := by
    rw [dataConnectionListenerConfig, andThen, if_neg (by simp [hended]), hip]
    exact Extends.andThen .refl fun h => h.announcePort env
  obtain ⟨d'', hd'', -⟩ := hx.log
  rw [hspin, hstart, hd', hd, List.append_assoc, List.append_assoc] at hd''
  rw [portsTried, newEffects_eq hd'']
  exact List.mem_filterMap.mpr ⟨.bind 0, by simp [hzero], rfl⟩

end Config

/-- **The passive port.** In every session, for every range of the configuration and whatever ports of it can be had,
the loop of PASV and EPSV ends, tries only ports of the range, each once and in increasing order, announces the lowest
that can be had and otherwise leaves no listener and replies 425, if and only if the range ends below 65535 or some
port of it can be had. -/
theorem passive_port_selected_iff (B : Nat → Bool) (first last : Nat) (ip : UInt8 × UInt8 × UInt8 × UInt8)
    (extended : Bool) (addr : SockAddr) (proc : Proc) (os : σ) (es : List Event) (hfirst : 1024 ≤ first)
    (hle : first ≤ last) (hlast : last ≤ 65535) (hrange : env.pasvRange = connectionsInitPasvRange first last)
    (hB : ∀ os port, env.newBind os port = B port) (hip : ∀ os, env.getsockname os = some ip)
    (hrun : (reached env addr proc os es).ended = none) :
    (∃ n, ∀ m, n ≤ m → SelectsPort B first last extended ip (reached env addr proc os es)
        (dataConnectionListenerConfig { env with spin := m } extended (reached env addr proc os es))) ↔
      last ≠ 65535 ∨ ∃ p, first ≤ p ∧ p ≤ last ∧ B p = true := by
  have hok := reached_listenerOk env addr proc os es
  generalize reached env addr proc os es = s at hrun hok ⊢
  obtain ⟨hstart, hend⟩ := connectionsInitPasvRange_eq hle hfirst hlast
  rw [← hrange] at hstart hend
  by_cases hany : ∃ p, first ≤ p ∧ p ≤ last ∧ B p = true
  · refine iff_of_true ?_ (.inr hany)
    -- the lowest of the ports that can be had
    obtain ⟨h₁, h₂, h₃⟩ := Nat.find_spec hany
    have hlow : ∀ q, first ≤ q → q < Nat.find hany → B q = false := by
      intro q hq hlt
      have := Nat.find_min hany hlt
      cases hBq : B q with
      | false => rfl
      | true => exact absurd ⟨hq, by omega, hBq⟩ this
    obtain ⟨k, hk⟩ := Nat.exists_eq_add_of_le h₁
    rw [hk] at h₂ h₃ hlow
    refine ⟨k + 1, fun m hm => ?_⟩
    exact found_selects { env with spin := m } extended hrun hok hip hB hstart hend (by omega) h₂ hlow h₃
      (show m = k + (m - (k + 1) + 1) by omega)
  · have hfail : ∀ p, first ≤ p → p ≤ last → B p = false := by
      intro p h₁ h₂
      cases hBp : B p with
      | false => rfl
      | true => exact absurd ⟨p, h₁, h₂, hBp⟩ hany
    by_cases htop : last = 65535
    · refine iff_of_false ?_ (not_or.mpr ⟨not_not.mpr htop, hany⟩)
      rintro ⟨n, hn⟩
      have hzero :=
        wrapped_tries_zero { env with spin := last + 1 - first + (n + 1) } extended hrun hok hip hB hstart hend
        hle (by omega) hfail rfl
      have := ((hn _ (by omega)).inRange 0 hzero).1
      omega
    · refine iff_of_true ⟨last + 1 - first + 1, fun m hm => ?_⟩ (.inl htop)
      exact exhausted_selects { env with spin := m } extended hrun hok hip hB hstart hend hle (by omega) hfail
        (show m = last + 1 - first + (m - (last + 1 - first + 1) + 1) by omega)

/-- A system on which port 40000 is taken and 40001 is not. -/
def busyFirst : Env Unit :=
  { Env.permissive with pasvRange := connectionsInitPasvRange 40000 41000, newBind := fun _ port => port != 40000 }

/-- There PASV announces port 40001. -/
theorem busyFirst_announces :
    ∃ n, ∀ m, n ≤ m → SelectsPort (· != 40000) 40000 41000 false (127, 0, 0, 1) (aliceSession busyFirst [])
      (dataConnectionListenerConfig { busyFirst with spin := m } false (aliceSession busyFirst [])) :=
  (passive_port_selected_iff busyFirst (· != 40000) 40000 41000 (127, 0, 0, 1) false _ _ _ _ (by decide) (by decide)
    (by decide) rfl (fun _ _ => rfl) (fun _ => rfl) (by decide)).mpr (.inl (by decide))

/-- A system on which the range is 65535 alone, which is taken. -/
def busyTop : Env Unit :=
  { Env.permissive with pasvRange := connectionsInitPasvRange 65535 65535, newBind := fun _ port => port != 65535 }

/-- There PASV tries port 0 next, and announces it. -/
theorem busyTop_announces_zero :
    portsTried (aliceSession busyTop []) (dataConnectionListenerConfig busyTop false (aliceSession busyTop [])) =
        [65535, 0] ∧
      repliesSent (aliceSession busyTop []) (dataConnectionListenerConfig busyTop false (aliceSession busyTop [])) =
        [(227, ascii "Entering Passive Mode. 127,0,0,1,0,0")] ∧
      ¬ ∃ n, ∀ m, n ≤ m → SelectsPort (· != 65535) 65535 65535 false (127, 0, 0, 1) (aliceSession busyTop [])
        (dataConnectionListenerConfig { busyTop with spin := m } false (aliceSession busyTop [])) := by
  refine ⟨by decide, by decide, ?_⟩
  rintro ⟨n, hn⟩
  have hzero : 0 ∈ portsTried (aliceSession busyTop [])
      (dataConnectionListenerConfig { busyTop with spin := 1 + (n + 1) } false (aliceSession busyTop [])) :=
    wrapped_tries_zero { busyTop with spin := 1 + (n + 1) } false (by decide) (reached_listenerOk busyTop _ _ _ _)
      (fun _ => rfl) (fun _ _ => rfl) rfl rfl (le_refl 65535) rfl (fun p h₁ h₂ => by
        rw [Nat.le_antisymm h₂ h₁]
        rfl) (show 1 + (n + 1) = 65535 + 1 - 65535 + (n + 1) by omega)
  exact absurd ((hn _ (by omega)).inRange 0 hzero).1 (by decide)

end CftpServer.Session
