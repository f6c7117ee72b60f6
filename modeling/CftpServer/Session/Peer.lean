import CftpServer.Session.Frame

/-!
# Who may open the data connection

`data_connection_accept_cb` compares the printed address of the peer with that of the control connection, on as many
bytes as an `int` has. `data_peer_checked_iff`: the check is right for exactly the pairs of addresses whose printed
forms differ there, if they differ at all.
-/

namespace CftpServer.Session

open CLib

variable {σ : Type} (env : Env σ)

section Accept

variable {s : Session σ} {l : Nat} (fd : Int) {addr : SockAddr}

/-- A peer that fails the check: its socket is closed, and that is all. -/
theorem accept_other (h : samePeer s.conn.sourceIp addr = false) :
    s.dataConnectionAcceptCb env l fd addr = s.emit env (.rejected fd) := by
  simp [dataConnectionAcceptCb, h]

theorem timeoutEventFree_log (s : Session σ) : ∃ d, (s.timeoutEventFree env).log = s.log ++ d ∧
    ∀ e ∈ d, ∃ t, e = .timerFree t := by
  unfold timeoutEventFree
  split
  · exact ⟨[], (List.append_nil _).symm, fun _ h => by cases h⟩
  · rename_i t _
    split <;> exact ⟨[.timerFree t], rfl, fun e he => ⟨t, List.mem_singleton.mp he⟩⟩

theorem newDataBev_log (s : Session σ) : ∃ d, (s.newDataBev env).log = s.log ++ d ∧
    ∀ e ∈ d, ∃ b tls, e = .bevNew b tls := by
  unfold newDataBev
  split
  · exact ⟨[.bevNew s.nextId s.conn.dataTlsRequired], rfl, fun e he => ⟨_, _, List.mem_singleton.mp he⟩⟩
  · exact ⟨[], (List.append_nil _).symm, fun _ h => by cases h⟩

/-- The effects of a peer that passes the check: the listener goes, a bufferevent may come, the timer goes. -/
theorem accept_same (hl : s.listeners l = true) (h : samePeer s.conn.sourceIp addr = true) :
    ∃ d, (s.dataConnectionAcceptCb env l fd addr).log = s.log ++ .listenerFree l :: d ∧
      ∀ e ∈ d, (∃ b tls, e = .bevNew b tls) ∨ ∃ t, e = .timerFree t := by
  have hfree : (s.listenerFree env l).log = s.log ++ [.listenerFree l] := by simp [listenerFree, hl, emit]
  simp only [dataConnectionAcceptCb, h, Bool.not_true, Bool.false_eq_true, if_false, Session.andThen]
  split
  · exact ⟨[], hfree, fun _ h => by cases h⟩
  · generalize s.listenerFree env l = s₁ at hfree
    obtain ⟨d, hd, hq⟩ := newDataBev_log env
      { s₁ with conn := { s₁.conn with dataActive := 0, pasvListener := none } }
    split
    · exact ⟨d, by rw [hd, hfree]; simp, fun e he => .inl (hq e he)⟩
    · generalize newDataBev env _ = s₂ at hd
      obtain ⟨d', hd', hq'⟩ := timeoutEventFree_log env { s₂ with conn := { s₂.conn with
        dataActive := if s₂.conn.dataTlsRequired then s₂.conn.dataActive else s₂.conn.dataActive + 1 } }
      refine ⟨d ++ d', by rw [hd', hd, hfree]; simp, fun e he => ?_⟩
      exact (List.mem_append.mp he).imp (hq e) (hq' e)

end Accept

/-- The two addresses are told apart by the bytes that are compared. -/
def ToldApart (a b : SockAddr) : Prop :=
  (fillSourceIp a).take SIZEOF_INET6_ADDRSTRLEN ≠ (fillSourceIp b).take SIZEOF_INET6_ADDRSTRLEN

/-- **Who may connect.** In every session with the peer `a`, a data connection from `b` is let in exactly when `b` is
`a`, and otherwise its socket is closed and nothing changes, if and only if the addresses are equal or told apart by
what is compared of them. -/
theorem data_peer_checked_iff (a b : SockAddr) (proc : Proc) (os : σ) (es : List Event) (l : Nat) (fd : Int)
    (hrun : (reached env a proc os es).ended = none) (hl : (reached env a proc os es).listeners l = true) :
    (let s := reached env a proc os es
     let s' := step env (.accept l fd b) s
     (Effect.rejected fd ∉ newEffects s s' ↔ a = b) ∧
      (a ≠ b → newEffects s s' = [.rejected fd] ∧ s'.conn = s.conn ∧ s'.listeners = s.listeners ∧
        s'.timers = s.timers)) ↔ a = b ∨ ToldApart a b := by
  have hip := reached_sourceIp env a proc os es
  generalize reached env a proc os es = s at hrun hl hip ⊢
  have hstep : step env (.accept l fd b) s = s.dataConnectionAcceptCb env l fd b := by
    rw [step_handle hrun, handle, if_pos hl]
  simp only [hstep]
  by_cases hsame : samePeer s.conn.sourceIp b = true
  · obtain ⟨d, hd, hq⟩ := accept_same env fd hl hsame
    have hno : Effect.rejected fd ∉ newEffects s (s.dataConnectionAcceptCb env l fd b) := by
      rw [newEffects_eq hd]
      intro hm
      rcases List.mem_cons.mp hm with hm | hm
      · cases hm
      · rcases hq _ hm with ⟨_, _, h⟩ | ⟨_, h⟩ <;> cases h
    have hnt : ¬ ToldApart a b := by
      rw [samePeer, strncmpEq_iff, hip] at hsame
      exact fun h => h hsame
    constructor
    · rintro ⟨h, -⟩
      exact .inl (h.mp hno)
    · intro h
      have hab := h.resolve_right hnt
      exact ⟨⟨fun _ => hab, fun _ => hno⟩, fun hne => absurd hab hne⟩
  · have heq := accept_other env (l := l) fd (Bool.not_eq_true _ ▸ hsame)
    have hnew : newEffects s (s.dataConnectionAcceptCb env l fd b) = [.rejected fd] := by
      rw [heq]
      exact newEffects_eq rfl
    have hta : ToldApart a b := by
      rw [samePeer, strncmpEq_iff, hip] at hsame
      exact hsame
    have hne : a ≠ b := by
      rintro rfl
      exact hta rfl
    refine iff_of_true ⟨?_, fun _ => ⟨hnew, ?_⟩⟩ (.inr hta)
    · rw [hnew]
      simp [hne]
    · rw [heq]
      exact ⟨rfl, rfl, rfl⟩

/-- A client of 192.168.1.5 that is logged in and has asked for a passive port. -/
def passiveSession : Session Unit :=
  reached Env.permissive (.inet 192 168 1 5) ⟨ascii "/", ascii "/", 0, 0, []⟩ ()
    [.controlRead (ascii "USER alice\r\n"), .controlRead (ascii "PASS x\r\n"), .controlRead (ascii "PASV\r\n")]

/-- Nobody from 10.0.0.7 gets in. -/
theorem other_network_rejected :
    newEffects passiveSession (step Env.permissive (.accept 1 9 (.inet 10 0 0 7)) passiveSession) = [.rejected 9] :=
  (((data_peer_checked_iff Env.permissive (.inet 192 168 1 5) (.inet 10 0 0 7) _ _ _ 1 9 (by decide) (by decide)).mpr
    (.inr (by unfold ToldApart; decide))).2 (by decide)).1

/-- Somebody from 192.0.2.1 does. -/
theorem same_first_byte_accepted :
    ¬ ∀ (σ : Type) (env : Env σ) (a b : SockAddr) (proc : Proc) (os : σ) (es : List Event) (l : Nat) (fd : Int),
      (reached env a proc os es).ended = none → (reached env a proc os es).listeners l = true →
      (Effect.rejected fd ∉ newEffects (reached env a proc os es)
        (step env (.accept l fd b) (reached env a proc os es)) ↔ a = b) := by
  intro h
  have := (h Unit Env.permissive (.inet 192 168 1 5) (.inet 192 0 2 1) ⟨ascii "/", ascii "/", 0, 0, []⟩ ()
    [.controlRead (ascii "USER alice\r\n"), .controlRead (ascii "PASS x\r\n"), .controlRead (ascii "PASV\r\n")] 1 9
    (by decide) (by decide)).mp (by decide)
  exact absurd this (by decide)

end CftpServer.Session
