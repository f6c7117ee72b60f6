import CftpServer.Session.Frame

/-!
# PROT P

`data_tls_required` says how the next data connection is made and how a transfer is run, but a data connection that is
open when PROT P arrives stays as it is.

* `Protected`: the invariant of a session; PROT P keeps it when no data connection without TLS is open
* `step_protected`: one event
* `prot_protects_transfers`: over every run
-/

namespace CftpServer.Session

open CLib Command Runs

variable {σ : Type} (env : Env σ)

/-- Data that moves over a connection without TLS. -/
def ClearText : Effect → Prop
  | .bevWrite _ tls bytes => tls = false ∧ bytes ≠ []
  | .store _ tls _ bytes => tls = false ∧ bytes ≠ []
  | _ => False

/-- Nothing moves in the clear after the reply to PROT P. -/
def ProtectedAfter (log : List Effect) : Prop :=
  ∀ pre post, log = pre ++ post → protPrivate ∈ pre → ∀ e ∈ post, ¬ ClearText e

/-- All data connections of the session are TLS connections. -/
def AllTls (s : Session σ) : Prop := ∀ b v, s.bevs b = some v → v.tls = true

/-- The event is not a PROT P while a data connection without TLS is open. -/
def ProtInTime (e : Event) (s : Session σ) : Prop :=
  ∀ chunk, e = .controlRead chunk → handlerOf s chunk = some .prot → (commandOf s chunk).args = [ascii "P"] → AllTls s

/-- PROT P holds for every data connection of the session, and has held since its reply. -/
structure Protected (s : Session σ) : Prop where
  required : protPrivate ∈ s.log → s.conn.dataTlsRequired = true
  allTls : s.conn.dataTlsRequired = true → AllTls s
  log : ProtectedAfter s.log

/-- More effects, none of them in the clear unless PROT P is still to come. -/
theorem ProtectedAfter.append {log d : List Effect} (h : ProtectedAfter log)
    (hd : ∀ e ∈ d, ClearText e → protPrivate ∉ log ++ d) : ProtectedAfter (log ++ d) := by
  intro pre post heq hprot e he hclear
  have hin : protPrivate ∈ log ++ d := by
    rw [heq]
    exact List.mem_append_left _ hprot
  rcases List.append_eq_append_iff.mp heq with ⟨c, -, hc⟩ | ⟨c, hc, hpost⟩
  · exact hd e (by rw [hc]; exact List.mem_append_right _ he) hclear hin
  · rw [hpost] at he
    rcases List.mem_append.mp he with he | he
    · exact h pre c hc hprot e he hclear
    · exact hd e he hclear hin

section Step

variable {s s' : Session σ}

/-- A quiet effect is not the reply to PROT P. -/
theorem protPrivate_not_quiet {C : Call → Prop} {N : Prop} (s : Session σ) : ¬ Quiet C N s protPrivate :=
  fun h => h ⟨rfl, rfl⟩

/-- A quiet effect in the clear needs a session that does not ask for TLS. -/
theorem clearText_quiet {C : Call → Prop} {N : Prop} {e : Effect} (h : Protected s) (hq : Quiet C N s e)
    (he : ClearText e) : s.conn.dataTlsRequired = false := by
  have hbev : ∀ {b : Nat} {tls : Bool}, tls = false →
      (∃ v, s.bevs b = some v ∧ v.tls = tls) ∨ (N ∧ tls = s.conn.dataTlsRequired) → s.conn.dataTlsRequired = false := by
    rintro b tls rfl (⟨v, hv, htls⟩ | ⟨-, ht⟩)
    · by_contra hreq
      have := h.allTls (by simpa using hreq) b v hv
      rw [htls] at this
      cases this
    · exact ht.symm
  cases e <;> first | exact hbev he.1 hq | exact he.elim

/-- A session that goes on quietly. -/
theorem Protected.of_extends {C : Call → Prop} {N : Prop} (h : Protected s) (hx : Extends C N s s') : Protected s' := by
  obtain ⟨d, hd, hq⟩ := hx.log
  have hnot : protPrivate ∉ d := fun hm => protPrivate_not_quiet s (hq _ hm)
  have hreq : protPrivate ∈ s'.log → s.conn.dataTlsRequired = true := by
    intro hm
    rw [hd] at hm
    exact h.required ((List.mem_append.mp hm).resolve_right hnot)
  refine ⟨fun hm => hx.dataTlsRequired.trans (hreq hm), fun ht b v hv => ?_, ?_⟩
  · rw [hx.dataTlsRequired] at ht
    rcases hx.bevs hv with ⟨v₀, hv₀, htls⟩ | ⟨-, htls⟩
    · rw [← htls]
      exact h.allTls ht b v₀ hv₀
    · exact htls.trans ht
  · rw [hd]
    refine h.log.append fun e he hclear hm => ?_
    have hfalse := clearText_quiet h (hq e he) hclear
    rw [hreq (by rw [hd]; exact hm)] at hfalse
    cases hfalse

/-- PROT P, when all data connections use TLS. -/
theorem Protected.prot (h : Protected s) (hall : AllTls s) (hlog : s'.log = s.log ++ [protPrivate])
    (hbevs : s'.bevs = s.bevs) (hreq : s'.conn.dataTlsRequired = true) : Protected s' := by
  refine ⟨fun _ => hreq, fun _ b v hv => hall b v (by rw [← hbevs]; exact hv), ?_⟩
  rw [hlog]
  refine h.log.append fun e he hclear => ?_
  rw [List.mem_singleton.mp he] at hclear
  exact hclear.elim

/-- A login is tried. -/
theorem Protected.attempted (h : Protected s) (password : Bytes) : Protected (attempted env password s) := by
  have hlog : (Session.attempted env password s).log =
      s.log ++ [.authenticate s.conn.username password (login env password s).ok] := rfl
  refine ⟨fun hm => h.required ?_, h.allTls, ?_⟩
  · rw [hlog] at hm
    exact (List.mem_append.mp hm).resolve_right (by simp [protPrivate])
  · rw [hlog]
    refine h.log.append fun e he hclear => ?_
    rw [List.mem_singleton.mp he] at hclear
    exact hclear.elim

/-- One event that is in time. -/
theorem step_protected (e : Event) (s : Session σ) (hg : ProtInTime e s) (h : Protected s) :
    Protected (step env e s) := by
  have hrec : ∀ {chunk}, Protected (received s chunk) := fun {chunk} => ⟨h.required, h.allTls, h.log⟩
  rcases step_extends env e s with hx | ⟨chunk, rfl, ha, hargs, heq⟩ | ⟨chunk, username, -, -, hx⟩ |
      ⟨chunk, arg, -, -, -, hx⟩
  · exact h.of_extends hx
  · rw [heq]
    exact h.prot (hg chunk rfl ha hargs) rfl rfl rfl
  · have hbase : Protected { received s chunk with conn := { s.conn with username := username } } :=
      ⟨h.required, h.allTls, h.log⟩
    exact hbase.of_extends hx
  · exact (hrec.attempted env arg).of_extends hx

end Step

theorem start_protected (addr : SockAddr) (proc : Proc) (os : σ) : Protected (start env addr proc os) := by
  have hno : ∀ e ∈ (start env addr proc os).log, ¬ ClearText e ∧ e ≠ protPrivate := by
    simp [start, sendControlMessage, timerNew, emit, fresh, ClearText, protPrivate]
  refine ⟨fun hm => absurd rfl (hno _ hm).2, fun _ b v hv => ?_, fun pre post heq _ e he => ?_⟩
  · cases hv
  · exact (hno e (by rw [heq]; exact List.mem_append_right _ he)).1

/-- **PROT P protects what follows.** In every run of a session in which no PROT P arrives while a data connection
without TLS is open, in every state reached: nothing is written to and nothing is stored from a data connection
without TLS once PROT P has been answered with 200. -/
theorem prot_protects_transfers (addr : SockAddr) (proc : Proc) (os : σ) (es : List Event)
    (hg : Guarded (step env) ProtInTime es (start env addr proc os)) :
    ∀ pre, pre <+: es → ProtectedAfter (reached env addr proc os pre).log := by
  rintro pre ⟨post, rfl⟩
  have h : Protected (reached env addr proc os pre) :=
    run_inv_of_guarded (step_protected env) pre hg.prefix (start_protected env addr proc os)
  exact h.log

/-- Other commands, and other events, are always in time. -/
theorem protInTime_command {chunk : Bytes} {s : Session σ} (h : handlerOf s chunk ≠ some .prot) :
    ProtInTime (.controlRead chunk) s := by
  intro chunk' he ha _
  cases he
  exact absurd ha h

theorem protInTime_event {e : Event} {s : Session σ} (h : ∀ chunk, e ≠ .controlRead chunk) : ProtInTime e s :=
  fun chunk he _ _ => absurd he (h chunk)

/-- PROT P first, a download later. -/
def protFirst : List Event :=
  [.controlRead (ascii "PROT P\r\n"), .controlRead (ascii "USER alice\r\n"), .controlRead (ascii "PASS x\r\n"),
    .controlRead (ascii "PASV\r\n"), .accept 1 9 (.inet 127 0 0 1), .controlRead (ascii "RETR x\r\n")]

/-- The file goes out over TLS. -/
theorem protFirst_protects :
    let log := (reached Env.twoByteFiles (.inet 127 0 0 1) ⟨ascii "/", ascii "/", 0, 0, []⟩ () protFirst).log
    protPrivate ∈ log ∧ Effect.bevWrite 3 true (ascii "ab") ∈ log ∧ ProtectedAfter log := by
  refine ⟨by decide, by decide, prot_protects_transfers Env.twoByteFiles _ _ _ protFirst ⟨?_, ?_⟩ _
    (List.prefix_refl _)⟩
  · intro chunk _ _ _ b v hv
    cases hv
  · exact ⟨protInTime_command (by decide), protInTime_command (by decide), protInTime_command (by decide),
      protInTime_event (fun _ he => by cases he), protInTime_command (by decide), trivial⟩

/-- The data connection first, then PROT P, and the file goes out in the clear. -/
theorem late_prot_leaks :
    ¬ ProtectedAfter (aliceSession Env.twoByteFiles [.controlRead (ascii "PASV\r\n"), .accept 1 9 (.inet 127 0 0 1),
      .controlRead (ascii "PROT P\r\n"), .controlRead (ascii "RETR x\r\n")]).log := by
  intro h
  exact h (List.take 14 _) (List.drop 14 _) (List.take_append_drop _ _).symm (by decide)
    (.bevWrite 3 false (ascii "ab")) (by decide) ⟨rfl, by decide⟩

end CftpServer.Session
