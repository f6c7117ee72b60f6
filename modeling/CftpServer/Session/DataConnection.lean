import CftpServer.Session.Aside

/-!
# One data connection

`data_connection_accept_cb` puts the new bufferevent into the connection and leaves the one that was there alone; its
events still arrive, and work on the connection they were registered with.

* `step_single`: what keeps the bufferevent of the connection the only one
* `one_data_connection_iff`: when every state of a run has at most one
-/

namespace CftpServer.Session

open CLib Command Security Runs

variable {σ : Type} (env : Env σ)

/-- Every bufferevent alive is the one of the connection, and events of any other do nothing. -/
structure OneDataConnection (s : Session σ) : Prop where
  only : ∀ b v, s.bevs b = some v → s.conn.dataBev = some b
  superseded : ∀ b e, DataEventOf b e → s.conn.dataBev ≠ some b → step env e s = s

/-- A client that passes the check connects only when there is no data connection. -/
def AcceptsOne (e : Event) (s : Session σ) : Prop :=
  ∀ listener fd addr, e = .accept listener fd addr → s.ended = none → s.listeners listener = true →
    samePeer s.conn.sourceIp addr = true → s.conn.dataBev = none

/-- The bufferevent of the connection is the only one alive, and alive; later ones get other numbers. -/
structure Single (s : Session σ) : Prop where
  only : ∀ b v, s.bevs b = some v → s.conn.dataBev = some b
  live : ∀ b, s.conn.dataBev = some b → s.bevs b ≠ none
  old : ∀ b, s.nextId ≤ b → s.bevs b = none

section Single

variable {s s' : Session σ}

/-- What counts is which bufferevents are alive. -/
theorem Single.of_live (h : Single s) (hlive : ∀ b, s'.bevs b = none ↔ s.bevs b = none)
    (hd : s'.conn.dataBev = s.conn.dataBev) (hid : s.nextId ≤ s'.nextId) : Single s' where
  only b v hv := by
    rw [hd]
    cases hb : s.bevs b with
    | none => rw [(hlive b).mpr hb] at hv; cases hv
    | some w => exact h.only b w hb
  live b hb := by
    rw [hd] at hb
    exact fun hnone => h.live b hb ((hlive b).mp hnone)
  old b hb := (hlive b).mpr (h.old b (hid.trans hb))

theorem Single.of_eq (h : Single s) (hbevs : s'.bevs = s.bevs) (hd : s'.conn.dataBev = s.conn.dataBev)
    (hid : s.nextId ≤ s'.nextId) : Single s' := h.of_live (fun b => by rw [hbevs]) hd hid

theorem Single.of_aside (h : Single s) (ha : Aside s s') : Single s' :=
  h.of_eq (congrArg Transfer.bevs ha.transfer) (congrArg Transfer.dataBev ha.transfer) ha.nextId

/-- The bufferevent of the connection is the only one. -/
theorem Single.eq_of_live (h : Single s) {b d : Nat} {v : Bev} (hb : s.bevs b = some v) (hd : s.conn.dataBev = some d) :
    b = d := by
  have hsame := h.only b v hb
  rw [hd, Option.some.injEq] at hsame
  exact hsame.symm

/-- Nothing is alive without a data connection. -/
theorem Single.none_of_dataBev (h : Single s) (hd : s.conn.dataBev = none) (b : Nat) : s.bevs b = none := by
  rw [Option.eq_none_iff_forall_ne_some]
  intro v hv
  rw [h.only b v hv] at hd
  cases hd

/-- The data connection is closed. -/
theorem Single.closed (h : Single s) : Single (closeDataConnection env s) := by
  cases hd : s.conn.dataBev with
  | none =>
    have hgone := closeDataConnection_gone env (s := s) (fun b hb => by rw [hd] at hb; cases hb)
    exact h.of_eq (congrArg Durable.bevs hgone) ((congrArg Durable.dataBev hgone).trans hd.symm)
      (le_of_eq (congrArg Durable.nextId hgone).symm)
  | some d =>
    obtain ⟨v, hv⟩ := Option.ne_none_iff_exists'.mp (h.live d hd)
    obtain ⟨l, os, heq, -⟩ := closeDataConnection_live env hd hv
    have hnone : ∀ b, Function.update s.bevs d none b = none := by
      intro b
      by_cases hb : b = d
      · rw [hb, Function.update_self]
      · rw [Function.update_of_ne hb, Option.eq_none_iff_forall_ne_some]
        intro w hw
        exact hb (h.eq_of_live hw hd)
    rw [heq]
    refine ⟨fun b w hw => ?_, fun b hb => ?_, fun b _ => hnone b⟩
    · exact absurd (hw.symm.trans (hnone b)) (Option.some_ne_none w)
    · cases hb

/-- One move. -/
theorem Single.of_move {C : Call → Prop} (h : Single s) (hm : Move env C s s') : Single s' := by
  cases hm with
  | keep hk =>
    exact h.of_eq (congrArg Durable.bevs hk) (congrArg Durable.dataBev hk) (le_of_eq (congrArg Durable.nextId hk).symm)
  | fresh => exact h.of_eq rfl rfl (Nat.le_succ _)
  | did => exact h.of_eq rfl rfl le_rfl
  | wrote => exact h.of_eq rfl rfl le_rfl
  | stored => exact h.of_eq rfl rfl le_rfl
  | fired => exact h.of_eq rfl rfl le_rfl
  | closed => exact h.closed env
  | @bev b v v' hv ht =>
    refine h.of_live (fun b' => ?_) rfl le_rfl
    change Function.update s.bevs b (some v') b' = none ↔ s.bevs b' = none
    by_cases hb : b' = b
    · rw [hb, Function.update_self, hv]
      simp
    · rw [Function.update_of_ne hb]

/-- A new data connection, when there was none. -/
theorem Single.newDataBev (h : Single s) (hd : s.conn.dataBev = none) : Single (newDataBev env s) := by
  unfold Session.newDataBev
  split
  · refine ⟨fun b v hv => ?_, fun b hb => ?_, fun b hb => ?_⟩
    · by_cases hb : b = s.nextId
      · rw [hb]
        rfl
      · simp only [fresh, emit, Function.update_of_ne hb, h.none_of_dataBev hd] at hv
        cases hv
    · cases hb
      simp [fresh, emit]
    · have hb : s.nextId + 1 ≤ b := hb
      simp only [fresh, emit]
      rw [Function.update_of_ne (by omega)]
      exact h.old b (by omega)
  · exact h.of_eq rfl hd.symm le_rfl

/-- **One event**, unless it is a second client that connects, leaves one bufferevent. -/
theorem step_single (e : Event) (h : Single s) (hg : AcceptsOne e s) : Single (step env e s) := by
  rcases step_moves env e s with hm | ⟨hs, hsp⟩
  · exact hm.inv (fun hm h => h.of_move env hm) h
  · generalize step env e s = s' at hsp ⊢
    have hrec : ∀ chunk, Single (received s chunk) := fun chunk => h.of_aside (received_aside s chunk)
    cases hsp with
    | prot => exact h.of_eq rfl rfl le_rfl
    | user => exact h.of_eq rfl rfl le_rfl
    | pass => exact (hrec _).of_aside (runAction_aside env (a := .pass) rfl (by decide) _ _)
    | passive extended => exact (hrec _).of_aside Aside.refl.dataConnectionListenerConfig
    | @accept listener fd addr hl hp =>
      obtain ⟨s₁, ha₁, ha₂⟩ := accept_aside env fd hs hl hp
      have hd : s₁.conn.dataBev = none :=
        (congrArg Transfer.dataBev ha₁.transfer).trans (hg listener fd addr rfl hs hl hp)
      exact ((h.of_aside ha₁).newDataBev env hd).of_aside ha₂
    | timer ht => exact (h.of_move env (.fired (C := fun _ => True) ht)).of_aside Aside.refl.dropListener

/-- With one bufferevent, the events of others do nothing. -/
theorem Single.one (h : Single s) : OneDataConnection env s := by
  refine ⟨h.only, fun b e he hne => ?_⟩
  have hgone : s.bevs b = none := by
    rw [Option.eq_none_iff_forall_ne_some]
    intro v hv
    exact hne (h.only b v hv)
  have hstep : step env e s = if s.ended.isSome then s else handle env e s := rfl
  rw [hstep]
  split
  · rfl
  · cases he with
    | read bytes => simp only [handle, hgone]
    | write n => simp only [handle, hgone]
    | event connected timeout error eof => simp only [handle, hgone]

/-- A second client that connects leaves the first bufferevent alive, and not in the connection. -/
theorem Single.acceptsOne {e : Event} (h : Single s) (hq : OneDataConnection env (step env e s)) : AcceptsOne e s := by
  rintro listener fd addr rfl hs hl hp
  by_contra hd
  obtain ⟨d, hd⟩ := Option.ne_none_iff_exists'.mp hd
  obtain ⟨v, hv⟩ := Option.ne_none_iff_exists'.mp (h.live d hd)
  have hlt : d < s.nextId := by
    by_contra hge
    rw [h.old d (by omega)] at hv
    cases hv
  have hstep : step env (.accept listener fd addr) s = dataConnectionAcceptCb env listener fd addr s := by
    rw [step_handle hs]
    simp only [handle, if_pos hl]
  obtain ⟨s₁, ha₁, ha₂⟩ := accept_aside env fd hs hl hp
  have hne : d ≠ s₁.nextId := by have := ha₁.nextId; omega
  have hv₁ : s₁.bevs d = some v := (congrFun (congrArg Transfer.bevs ha₁.transfer) d).trans hv
  have hkey : (s₁.newDataBev env).bevs d = some v ∧ (s₁.newDataBev env).conn.dataBev ≠ some d := by
    unfold Session.newDataBev
    split
    · refine ⟨?_, fun heq => ?_⟩
      · simp only [fresh, emit, Function.update_of_ne hne]
        exact hv₁
      · exact hne (Option.some.inj heq).symm
    · exact ⟨hv₁, fun heq => by cases heq⟩
  rw [hstep] at hq
  refine hkey.2 ((congrArg Transfer.dataBev ha₂.transfer).symm.trans (hq.only d v ?_))
  exact (congrFun (congrArg Transfer.bevs ha₂.transfer) d).trans hkey.1

end Single

theorem start_single (addr : SockAddr) (proc : Proc) (os : σ) : Single (start env addr proc os) :=
  ⟨fun _ _ hv => (by cases hv), fun _ hb => (by cases hb), fun _ _ => rfl⟩

/-- **One data connection.** Every state of a run has at most one bufferevent, that of the connection, exactly when no
client that passes the check connects while there is a data connection. -/
theorem one_data_connection_iff (addr : SockAddr) (proc : Proc) (os : σ) (es : List Event) :
    (∀ pre, pre <+: es → OneDataConnection env (reached env addr proc os pre)) ↔
      Guarded (step env) AcceptsOne es (start env addr proc os) :=
  forall_prefix_iff_guarded (fun _ h => h.one env) (fun _ _ h hq => h.acceptsOne env hq)
    (fun e _ h hg => step_single env e h hg) es (start_single env addr proc os)

/-- PASV and a connect, twice: the first bufferevent stays alive beside the second. -/
theorem second_connect_leaves_first :
    ¬ ∀ (σ : Type) (env : Env σ) (addr : SockAddr) (proc : Proc) (os : σ) (es : List Event),
      OneDataConnection env (reached env addr proc os es) := by
  intro h
  have hone := h Unit Env.permissive (.inet 127 0 0 1) ⟨ascii "/", ascii "/", 0, 0, []⟩ ()
    [.controlRead (ascii "USER alice\r\n"), .controlRead (ascii "PASS x\r\n"), .controlRead (ascii "PASV\r\n"),
      .accept 1 9 (.inet 127 0 0 1), .controlRead (ascii "PASV\r\n"), .accept 4 10 (.inet 127 0 0 1)]
  exact absurd (hone.only 3 ⟨false, [], [], 0, [], []⟩ (by decide)) (by decide)

end CftpServer.Session
