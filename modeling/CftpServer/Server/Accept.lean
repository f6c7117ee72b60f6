import CftpServer.Lib.Run
import Mathlib.Data.List.Count

/-!
# The parent process (`core/connection.c`, `ipc/interprocess_handler.c`)

The parent accepts control connections, forks a child for each, and keeps one end of a socket pair to every child. It
counts connections in `currentConnections` and refuses new ones at the configured limit.

* `step_counts_iff`: one step keeps the count true exactly when no session ends in it, and a connection it lets in
  gets both a child and a bufferevent, or neither
* `connection_limit_counts_live_iff`: the same for whole runs
-/

namespace CftpServer.Server

open Runs

/-- The descriptors of one session, numbered by its connection, and the listening socket. -/
inductive End where
  | listener
  | client (id : Nat)
  | rpc0 (id : Nat)
  | rpc1 (id : Nat)
  | pipe0 (id : Nat)
  | pipe1 (id : Nat)
deriving DecidableEq, Repr

/-- A session child. -/
structure Child where
  id : Nat
  running : Bool
  fds : List End
deriving DecidableEq, Repr

/-- A bufferevent on the parent's end of a socket pair; `ctx` tells whether its callbacks get a non-NULL argument. -/
structure IpcBev where
  id : Nat
  ctx : Bool
deriving DecidableEq, Repr

/-- The parent's part of `server_state_t`, its descriptors and its children. -/
structure ServerState where
  maxConnections : UInt32
  currentConnections : UInt32
  fds : List End
  bevs : List IpcBev
  children : List Child
  nextId : Nat
deriving DecidableEq, Repr

/-- The server after start-up. -/
def initServerState (maxConnections : UInt32) : ServerState := ⟨maxConnections, 0, [.listener], [], [], 0⟩

/-- How the calls of one `control_connection_accept_cb` end. -/
structure Outcomes where
  socketpair : Bool
  fork : Bool
  bufferevent : Bool
deriving DecidableEq, Repr

/-- `register_interprocess_fd_on_server`: the callbacks are set with a NULL argument. -/
def registerInterprocessFdOnServer (bufferevent : Bool) (id : Nat) (g : ServerState) : ServerState :=
  if bufferevent then
    { g with currentConnections := g.currentConnections + 1, bevs := g.bevs ++ [⟨id, false⟩] }
  else g

/-- The child gets a copy of the parent's descriptors and closes three of them. -/
def childOf (id : Nat) (fds : List End) : Child :=
  ⟨id, true, fds.filter fun e => e ≠ .pipe1 id ∧ e ≠ .listener ∧ e ≠ .rpc0 id⟩

/-- The guard of `control_connection_accept_cb`. -/
def rejects (g : ServerState) : Bool := g.currentConnections ≥ g.maxConnections

/-- `control_connection_accept_cb`. A refused connection is closed at once. -/
def controlConnectionAcceptCb (o : Outcomes) (g : ServerState) : ServerState :=
  if rejects g then g
  else if !o.socketpair then g
  else
    let id := g.nextId
    let fds := g.fds ++ [.client id, .rpc0 id, .rpc1 id, .pipe0 id, .pipe1 id]
    -- a failed fork is not told from the parent's return of a successful one
    let children := if o.fork then g.children ++ [childOf id fds] else g.children
    let fds := fds.filter fun e => e ≠ .pipe0 id ∧ e ≠ .rpc1 id ∧ e ≠ .client id
    registerInterprocessFdOnServer o.bufferevent id { g with fds := fds, children := children, nextId := id + 1 }

/-- `event_cb`, for an EOF or an error. -/
def eventCb (b : IpcBev) (g : ServerState) : ServerState :=
  if !b.ctx then g
  else
    { g with
      bevs := g.bevs.erase b
      fds := g.fds.erase (.rpc0 b.id)
      currentConnections := g.currentConnections + 1 }

/-- The child stops; its descriptors are closed. -/
def stop (id : Nat) (c : Child) : Child := if c.id = id then { c with running := false, fds := [] } else c

inductive Event where
  | incoming (o : Outcomes)
  | sessionEnd (id : Nat)
deriving DecidableEq, Repr

/-- One step of the parent: a connection, or the end of a session, which its bufferevent reports. -/
def step : Event → ServerState → ServerState
  | .incoming o, g => controlConnectionAcceptCb o g
  | .sessionEnd id, g =>
    (g.bevs.filter (·.id = id)).foldl (fun g b => eventCb b g) { g with children := g.children.map (stop id) }

/-- The sessions whose child runs. -/
def live (g : ServerState) : Nat := g.children.countP (·.running)

/-- The counter is the number of live sessions, and so the limit is on live sessions. -/
def Counts (g : ServerState) : Prop :=
  g.currentConnections.toNat = live g ∧ (rejects g ↔ g.maxConnections.toNat ≤ live g)

/-- No session ends, and a connection that is let in gets a child exactly when it gets a bufferevent. -/
def Sound : Event → ServerState → Prop
  | .incoming o, g => rejects g ∨ o.socketpair = false ∨ o.fork = o.bufferevent
  | .sessionEnd id, g => ∀ c ∈ g.children, c.id = id → c.running = false

section Step

variable {g : ServerState}

theorem counts_iff : Counts g ↔ g.currentConnections.toNat = live g := by
  refine ⟨fun h => h.1, fun h => ⟨h, ?_⟩⟩
  rw [rejects, decide_eq_true_iff, ge_iff_le, UInt32.le_iff_toNat_le, h]

/-- No callback of the parent has an argument. -/
def NoCtx (g : ServerState) : Prop := ∀ b ∈ g.bevs, b.ctx = false

theorem foldl_eventCb (bs : List IpcBev) (h : ∀ b ∈ bs, b.ctx = false) (g : ServerState) :
    bs.foldl (fun g b => eventCb b g) g = g := by
  induction bs with
  | nil => rfl
  | cons b bs ih =>
    have hb : eventCb b g = g := by simp [eventCb, h b List.mem_cons_self]
    rw [List.foldl_cons, hb]
    exact ih fun b' hb' => h b' (List.mem_cons_of_mem _ hb')

/-- A session end only stops the child: `event_cb` returns at once. -/
theorem step_sessionEnd (h : NoCtx g) (id : Nat) :
    step (.sessionEnd id) g = { g with children := g.children.map (stop id) } := by
  refine foldl_eventCb _ (fun b hb => ?_) _
  exact h b (List.mem_of_mem_filter hb)

theorem step_noCtx (e : Event) (h : NoCtx g) : NoCtx (step e g) := by
  cases e with
  | sessionEnd id => rw [step_sessionEnd h]; exact h
  | incoming o =>
    simp only [step, controlConnectionAcceptCb, registerInterprocessFdOnServer]
    split
    · exact h
    · split
      · exact h
      · split
        · intro b hb
          rcases List.mem_append.mp hb with hb | hb
          · exact h b hb
          · rw [List.mem_singleton.mp hb]
        · exact h

theorem countP_stop_le (id : Nat) (cs : List Child) :
    (cs.map (stop id)).countP (·.running) ≤ cs.countP (·.running) := by
  rw [List.countP_map]
  refine List.countP_mono_left fun c _ hc => ?_
  simp only [Function.comp_apply, stop] at hc
  split at hc
  · cases hc
  · exact hc

/-- A stopped child is live no more. -/
theorem live_stop (id : Nat) (cs : List Child) : (cs.map (stop id)).countP (·.running) =
    cs.countP (·.running) ↔ ∀ c ∈ cs, c.id = id → c.running = false := by
  induction cs with
  | nil => simp
  | cons c cs ih =>
    have hcs := countP_stop_le id cs
    rw [List.map_cons, List.countP_cons, List.countP_cons, List.forall_mem_cons]
    refine Iff.trans ?_ (and_congr Iff.rfl ih)
    by_cases hid : c.id = id
    · cases hr : c.running
      · simp [stop, hid]
      · simp only [stop, hid, if_true, Bool.false_eq_true, if_false, true_imp_iff, Bool.true_eq_false, false_and,
          iff_false]
        omega
    · simp [stop, hid]

/-- A connection that is let in: one more child if the fork succeeds, one more counted if there is a bufferevent. -/
theorem accept_let_in {o : Outcomes} (hr : rejects g = false) (ho : o.socketpair = true) :
    live (controlConnectionAcceptCb o g) = live g + o.fork.toNat ∧
      (controlConnectionAcceptCb o g).currentConnections.toNat = g.currentConnections.toNat + o.bufferevent.toNat := by
  have hlt : g.currentConnections.toNat < g.maxConnections.toNat := by
    rw [rejects, decide_eq_false_iff_not, ge_iff_le, UInt32.le_iff_toNat_le] at hr
    omega
  have hmax := g.maxConnections.toNat_lt
  have hsucc : (g.currentConnections + 1).toNat = g.currentConnections.toNat + 1 := by
    rw [UInt32.toNat_add, UInt32.toNat_one, Nat.mod_eq_of_lt (by omega)]
  rw [controlConnectionAcceptCb, hr, ho]
  constructor
  · cases hf : o.fork <;> cases hb : o.bufferevent <;>
      simp [registerInterprocessFdOnServer, live, childOf]
  · cases hb : o.bufferevent
    · simp [registerInterprocessFdOnServer]
    · simpa [registerInterprocessFdOnServer] using hsucc

/-- The count after a connection that is let in. -/
theorem accept_counts_iff {o : Outcomes} (hr : rejects g = false) (ho : o.socketpair = true)
    (h : g.currentConnections.toNat = live g) :
    (controlConnectionAcceptCb o g).currentConnections.toNat = live (controlConnectionAcceptCb o g) ↔
      o.fork = o.bufferevent := by
  obtain ⟨hl, hc⟩ := accept_let_in hr ho
  rw [hl, hc, h]
  cases o.fork <;> cases o.bufferevent <;> simp

/-- One step keeps the count true exactly when it is sound. -/
theorem step_counts_iff (e : Event) (hn : NoCtx g) (h : Counts g) : Counts (step e g) ↔ Sound e g := by
  rw [counts_iff] at h ⊢
  cases e with
  | sessionEnd id =>
    rw [step_sessionEnd hn, Sound, ← live_stop]
    simp only [live] at h ⊢
    rw [h]
    exact eq_comm
  | incoming o =>
    simp only [step, Sound]
    by_cases hr : rejects g = true
    · simp [controlConnectionAcceptCb, hr, h]
    · by_cases ho : o.socketpair = true
      · rw [accept_counts_iff (by simpa using hr) ho h]
        simp [hr, ho]
      · simp [controlConnectionAcceptCb, hr, ho, h]

end Step

/-- **The connection limit.** In every state of a run the counter is the number of live sessions, and the limit is on
live sessions, exactly when every step of the run is sound. -/
theorem connection_limit_counts_live_iff (maxConnections : UInt32) (es : List Event) :
    (∀ pre, pre <+: es → Counts (run step pre (initServerState maxConnections))) ↔
      Guarded step Sound es (initServerState maxConnections) := by
  have hinit : NoCtx (initServerState maxConnections) := fun b hb => by cases hb
  refine forall_prefix_iff_guarded (I := fun g => NoCtx g ∧ Counts g) (fun g h => h.2) (fun e g h => ?_)
    (fun e g h hsound => ?_) es ⟨hinit, counts_iff.mpr rfl⟩
  · exact (step_counts_iff e h.1 h.2).mp
  · exact ⟨step_noCtx e h.1, (step_counts_iff e h.1 h.2).mpr hsound⟩

/-- With a limit of one connection, the first session still counts after it has ended, and nobody gets in any more. -/
theorem ended_session_still_counts :
    ¬ ∀ (maxConnections : UInt32) (es : List Event), Counts (run step es (initServerState maxConnections)) := by
  intro h
  have := (h 1 [.incoming ⟨true, true, true⟩, .sessionEnd 0]).1
  exact absurd this (by decide)

end CftpServer.Server
