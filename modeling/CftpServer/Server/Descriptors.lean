import CftpServer.Server.Accept
import Mathlib.Data.Finset.Max

/-!
# Descriptors of the server's processes

A child is forked with a copy of every descriptor its parent has open. The parent never closes the write end of a kill
pipe nor its own end of a socket pair, so a child inherits those of all earlier sessions.

* `sessions_isolated_iff`: when no process holds a descriptor of a session that is not its own
* `orphans_exit`: the kill pipes still work, one after another, since no child has the write end of a later one
-/

namespace CftpServer.Server

open Runs

/-- The session of an end of a socket pair or a kill pipe. -/
def End.session : End → Option Nat
  | rpc0 id | rpc1 id | pipe0 id | pipe1 id => some id
  | listener | client _ => none

/-! ## Isolation -/

/-- No child has an end of another session, and the parent none of a session that is over. -/
structure Isolated (g : ServerState) : Prop where
  children : ∀ c ∈ g.children, ∀ e ∈ c.fds, ∀ id, e.session = some id → id = c.id
  parent : ∀ c ∈ g.children, c.running = false → ∀ e ∈ g.fds, e.session ≠ some c.id

/-- A child is forked only while the parent holds no end of any session, and no session ends. -/
def Apart : Event → ServerState → Prop
  | .incoming o, g => rejects g ∨ o.socketpair = false ∨ o.fork = false ∨ ∀ e ∈ g.fds, e.session = none
  | .sessionEnd id, g => ∀ c ∈ g.children, c.id ≠ id

/-- The parent keeps its end of every socket pair; sessions are numbered as they begin. -/
structure Numbered (g : ServerState) : Prop where
  noCtx : NoCtx g
  kept : ∀ c ∈ g.children, .rpc0 c.id ∈ g.fds
  children : ∀ c ∈ g.children, c.id < g.nextId
  fds : ∀ e ∈ g.fds, ∀ id, e.session = some id → id < g.nextId

section Step

variable {g : ServerState} {o : Outcomes}

/-- A connection that is not let in changes nothing. -/
theorem accept_refused (h : rejects g = true ∨ o.socketpair = false) : controlConnectionAcceptCb o g = g := by
  unfold controlConnectionAcceptCb
  rcases h with h | h
  · rw [if_pos h]
  · rw [h]
    split <;> rfl

/-- What the parent has open when it forks. -/
def forked (g : ServerState) : List End :=
  g.fds ++ [.client g.nextId, .rpc0 g.nextId, .rpc1 g.nextId, .pipe0 g.nextId, .pipe1 g.nextId]

/-- **A connection that is let in**: the parent's descriptors, the children and the next number. -/
theorem accept_spec (hr : rejects g = false) (ho : o.socketpair = true) :
    (controlConnectionAcceptCb o g).fds =
        (forked g).filter (fun e => e ≠ .pipe0 g.nextId ∧ e ≠ .rpc1 g.nextId ∧ e ≠ .client g.nextId) ∧
      (controlConnectionAcceptCb o g).children =
        (if o.fork then g.children ++ [childOf g.nextId (forked g)] else g.children) ∧
      (controlConnectionAcceptCb o g).nextId = g.nextId + 1 := by
  unfold controlConnectionAcceptCb registerInterprocessFdOnServer
  rw [hr, ho]
  cases o.bufferevent <;> exact ⟨rfl, rfl, rfl⟩

/-- The ends the parent is left with: those it had, and two of the new session. -/
theorem mem_accept_fds (hr : rejects g = false) (ho : o.socketpair = true) {e : End}
    (he : e ∈ (controlConnectionAcceptCb o g).fds) : e ∈ g.fds ∨ e = .rpc0 g.nextId ∨ e = .pipe1 g.nextId := by
  rw [(accept_spec hr ho).1, List.mem_filter, forked, List.mem_append] at he
  rcases he.1 with hold | hnew
  · exact .inl hold
  · simp only [List.mem_cons, List.not_mem_nil, or_false] at hnew
    rcases hnew with rfl | rfl | rfl | rfl | rfl <;> simp at he ⊢

/-- An end of an earlier session stays with the parent. -/
theorem mem_accept_fds_of_mem (hr : rejects g = false) (ho : o.socketpair = true) {e : End} {id : Nat}
    (he : e ∈ g.fds) (hid : e.session = some id) (hlt : id < g.nextId) : e ∈ (controlConnectionAcceptCb o g).fds := by
  rw [(accept_spec hr ho).1, List.mem_filter]
  refine ⟨List.mem_append_left _ he, ?_⟩
  have hne : id ≠ g.nextId := hlt.ne
  cases e <;> simp_all [End.session]

theorem rpc0_mem_accept_fds (hr : rejects g = false) (ho : o.socketpair = true) :
    .rpc0 g.nextId ∈ (controlConnectionAcceptCb o g).fds := by
  rw [(accept_spec hr ho).1, List.mem_filter]
  simp [forked]

/-- What a child has: what the parent had, and three ends of its own session. -/
theorem mem_childOf {e : End} (he : e ∈ (childOf g.nextId (forked g)).fds) :
    e ∈ g.fds ∨ e = .client g.nextId ∨ e = .rpc1 g.nextId ∨ e = .pipe0 g.nextId := by
  simp only [childOf, forked, List.mem_filter, List.mem_append, List.mem_cons, List.not_mem_nil, or_false] at he
  obtain ⟨hold | rfl | rfl | rfl | rfl | rfl, hne⟩ := he <;> simp_all

/-- The end of an earlier session is inherited. -/
theorem mem_childOf_of_mem {e : End} {id : Nat} (he : e ∈ g.fds) (hid : e.session = some id) (hlt : id < g.nextId) :
    e ∈ (childOf g.nextId (forked g)).fds := by
  rw [childOf, List.mem_filter]
  refine ⟨List.mem_append_left _ he, ?_⟩
  have hne : id ≠ g.nextId := hlt.ne
  cases e <;> simp_all [End.session]

theorem mem_children_accept (hr : rejects g = false) (ho : o.socketpair = true) {c : Child}
    (hc : c ∈ (controlConnectionAcceptCb o g).children) :
    c ∈ g.children ∨ o.fork = true ∧ c = childOf g.nextId (forked g) := by
  rw [(accept_spec hr ho).2.1] at hc
  cases hf : o.fork
  · rw [hf] at hc
    exact .inl hc
  · rw [hf, if_pos rfl] at hc
    rcases List.mem_append.mp hc with hc | hc
    · exact .inl hc
    · exact .inr ⟨rfl, List.mem_singleton.mp hc⟩

theorem accept_numbered (h : Numbered g) (hr : rejects g = false) (ho : o.socketpair = true) :
    Numbered (controlConnectionAcceptCb o g) := by
  have hnext := (accept_spec hr ho).2.2
  refine ⟨step_noCtx (.incoming o) h.noCtx, ?_, ?_, ?_⟩
  · intro c hc
    rcases mem_children_accept hr ho hc with hc | ⟨-, rfl⟩
    · exact mem_accept_fds_of_mem hr ho (h.kept c hc) rfl (h.children c hc)
    · exact rpc0_mem_accept_fds hr ho
  · intro c hc
    rw [hnext]
    rcases mem_children_accept hr ho hc with hc | ⟨-, rfl⟩
    · exact Nat.lt_succ_of_lt (h.children c hc)
    · exact Nat.lt_succ_self _
  · intro e he id hid
    rw [hnext]
    rcases mem_accept_fds hr ho he with he | rfl | rfl
    · exact Nat.lt_succ_of_lt (h.fds e he id hid)
    · obtain rfl := Option.some.inj hid
      exact Nat.lt_succ_self _
    · obtain rfl := Option.some.inj hid
      exact Nat.lt_succ_self _

/-- A stopped child, or one that was there before. -/
theorem mem_map_stop {id : Nat} {cs : List Child} {c : Child} (hc : c ∈ cs.map (stop id)) :
    (∃ d ∈ cs, d.id = id ∧ c = { d with running := false, fds := [] }) ∨ (c ∈ cs ∧ c.id ≠ id) := by
  obtain ⟨d, hd, rfl⟩ := List.mem_map.mp hc
  unfold stop
  split
  · rename_i hid
    exact .inl ⟨d, hd, hid, rfl⟩
  · rename_i hid
    exact .inr ⟨hd, hid⟩

theorem step_numbered (e : Event) (h : Numbered g) : Numbered (step e g) := by
  cases e with
  | incoming o =>
    by_cases hin : rejects g = true ∨ o.socketpair = false
    · rw [step, accept_refused hin]
      exact h
    · rw [not_or, Bool.not_eq_true, Bool.not_eq_false] at hin
      exact accept_numbered h hin.1 hin.2
  | sessionEnd id =>
    have hnoCtx := step_noCtx (.sessionEnd id) h.noCtx
    rw [step_sessionEnd h.noCtx] at hnoCtx ⊢
    refine ⟨hnoCtx, ?_, ?_, h.fds⟩
    · intro c hc
      rcases mem_map_stop hc with ⟨d, hd, -, rfl⟩ | ⟨hc, -⟩
      · exact h.kept d hd
      · exact h.kept c hc
    · intro c hc
      rcases mem_map_stop hc with ⟨d, hd, -, rfl⟩ | ⟨hc, -⟩
      · exact h.children d hd
      · exact h.children c hc

/-- A fork is harmless only while the parent holds no end of a session. -/
theorem accept_isolated_iff (h : Numbered g) (hi : Isolated g) (hr : rejects g = false) (ho : o.socketpair = true) :
    Isolated (controlConnectionAcceptCb o g) ↔ o.fork = false ∨ ∀ e ∈ g.fds, e.session = none := by
  constructor
  · intro hi'
    cases hf : o.fork with
    | false => exact .inl rfl
    | true =>
      refine .inr fun e he => Option.eq_none_iff_forall_ne_some.mpr fun id hid => ?_
      have hlt := h.fds e he id hid
      have hmem : childOf g.nextId (forked g) ∈ (controlConnectionAcceptCb o g).children := by
        rw [(accept_spec hr ho).2.1, hf, if_pos rfl]
        exact List.mem_append_right _ (List.mem_singleton_self _)
      have hown : id = g.nextId := hi'.children _ hmem e (mem_childOf_of_mem he hid hlt) id hid
      exact hlt.ne hown
  · intro hsafe
    refine ⟨fun c hc e he id hid => ?_, fun c hc hrun e he => ?_⟩
    · rcases mem_children_accept hr ho hc with hc | ⟨hf, rfl⟩
      · exact hi.children c hc e he id hid
      · rcases mem_childOf he with he | rfl | rfl | rfl
        · rw [hf] at hsafe
          rw [(hsafe.resolve_left (by decide)) e he] at hid
          cases hid
        · cases hid
        · exact (Option.some.inj hid).symm
        · exact (Option.some.inj hid).symm
    · rcases mem_children_accept hr ho hc with hc | ⟨-, rfl⟩
      · have hne : g.nextId ≠ c.id := (h.children c hc).ne'
        rcases mem_accept_fds hr ho he with he | rfl | rfl
        · exact hi.parent c hc hrun e he
        · exact fun hid => hne (Option.some.inj hid)
        · exact fun hid => hne (Option.some.inj hid)
      · cases hrun

theorem step_isolated_iff (e : Event) (h : Numbered g) (hi : Isolated g) : Isolated (step e g) ↔ Apart e g := by
  cases e with
  | incoming o =>
    by_cases hin : rejects g = true ∨ o.socketpair = false
    · rw [step, accept_refused hin, Apart]
      apply iff_of_true hi
      rcases hin with hin | hin
      · exact .inl hin
      · exact .inr (.inl hin)
    · rw [not_or, Bool.not_eq_true, Bool.not_eq_false] at hin
      simp only [step, accept_isolated_iff h hi hin.1 hin.2, Apart, hin.1, hin.2, Bool.false_eq_true,
        Bool.true_eq_false, false_or]
  | sessionEnd id =>
    rw [step_sessionEnd h.noCtx]
    constructor
    · rintro hi' c hc rfl
      have hmem : stop c.id c ∈ g.children.map (stop c.id) := List.mem_map_of_mem hc
      have hstop : stop c.id c = { c with running := false, fds := [] } := if_pos rfl
      rw [hstop] at hmem
      exact hi'.parent _ hmem rfl _ (h.kept c hc) rfl
    · intro hno
      have hsame : g.children.map (stop id) = g.children := by
        conv_rhs => rw [← List.map_id g.children]
        exact List.map_congr_left fun c hc => if_neg (hno c hc)
      rw [hsame]
      exact hi

end Step

theorem initServerState_numbered (maxConnections : UInt32) : Numbered (initServerState maxConnections) := by
  refine ⟨fun b hb => (by cases hb), fun c hc => (by cases hc), fun c hc => (by cases hc), fun e he id hid => ?_⟩
  rw [List.mem_singleton.mp he] at hid
  cases hid

/-- **Isolation.** In every state of a run no child has an end of another session, and the parent none of a session
that is over, exactly when no child is forked beside the ends of a session and no session ends. -/
theorem sessions_isolated_iff (maxConnections : UInt32) (es : List Event) :
    (∀ pre, pre <+: es → Isolated (run step pre (initServerState maxConnections))) ↔
      Guarded step Apart es (initServerState maxConnections) := by
  have hnumbered := initServerState_numbered maxConnections
  have hisolated : Isolated (initServerState maxConnections) :=
    ⟨fun c hc => (by cases hc), fun c hc => (by cases hc)⟩
  refine forall_prefix_iff_guarded (I := fun g => Numbered g ∧ Isolated g) (fun g h => h.2) (fun e g h hq => ?_)
    (fun e g h hok => ?_) es ⟨hnumbered, hisolated⟩
  · exact (step_isolated_iff e h.1 h.2).mp hq
  · exact ⟨step_numbered e h.1, (step_isolated_iff e h.1 h.2).mpr hok⟩

/-- The second child has the parent's end of the first socket pair, and the write end of the first kill pipe. -/
theorem second_child_inherits :
    ¬ ∀ (maxConnections : UInt32) (es : List Event), Isolated (run step es (initServerState maxConnections)) := by
  intro h
  have hsecond := (h 10 [.incoming ⟨true, true, true⟩, .incoming ⟨true, true, true⟩]).children
    ⟨1, true, [.rpc0 0, .pipe1 0, .client 1, .rpc1 1, .pipe0 1]⟩ (by decide) (.pipe1 0) (by decide) 0 rfl
  cases hsecond

/-! ## The kill switch -/

/-- The parent and its children; the children go on without the parent. -/
structure Processes where
  server : ServerState
  parentRuns : Bool

/-- Some running process has the end. A process that has stopped has none. -/
def Held (e : End) (p : Processes) : Prop :=
  (p.parentRuns = true ∧ e ∈ p.server.fds) ∨ ∃ c ∈ p.server.children, e ∈ c.fds

instance (e : End) (p : Processes) : Decidable (Held e p) := inferInstanceAs (Decidable (_ ∨ _))

inductive ProcessEvent where
  | server (e : Event)
  | parentDies
  | killSwitch (id : Nat)
deriving DecidableEq, Repr

/-- `on_parent_dead`: the read end of the kill pipe is at its end, and the child exits. With a write end still held
somewhere there is nothing to read. -/
def onParentDead (id : Nat) (p : Processes) : Processes :=
  if Held (.pipe1 id) p then p
  else { p with server := { p.server with children := p.server.children.map (stop id) } }

/-- Without the parent nobody accepts connections, and nobody sees the end of a session. -/
def processStep : ProcessEvent → Processes → Processes
  | .server e, p =>
    if p.parentRuns then { p with server := step e p.server }
    else
      match e with
      | .incoming _ => p
      | .sessionEnd id => { p with server := { p.server with children := p.server.children.map (stop id) } }
  | .parentDies, p => { p with parentRuns := false }
  | .killSwitch id, p => onParentDead id p

/-- The server after start-up. -/
def startProcesses (maxConnections : UInt32) : Processes := ⟨initServerState maxConnections, true⟩

/-- The processes after these events. -/
def reachedProcesses (maxConnections : UInt32) (es : List ProcessEvent) : Processes :=
  run processStep es (startProcesses maxConnections)

/-- The running child that was forked last. -/
structure MostRecent (p : Processes) (c : Child) : Prop where
  mem : c ∈ p.server.children
  running : c.running = true
  last : ∀ d ∈ p.server.children, d.running = true → d.id ≤ c.id

/-- The child forked last reads the end of its kill pipe. -/
def Exits (e : ProcessEvent) (p : Processes) : Prop :=
  ∃ c, MostRecent p c ∧ e = .killSwitch c.id ∧ ¬ Held (.pipe1 c.id) p

/-- Children have write ends of earlier kill pipes only, and none when they have stopped. -/
structure Inherited (g : ServerState) : Prop extends Numbered g where
  earlier : ∀ c ∈ g.children, ∀ id, .pipe1 id ∈ c.fds → id < c.id
  stopped : ∀ c ∈ g.children, c.running = false → c.fds = []

section Kill

variable {g : ServerState} {p : Processes}

theorem stop_inherited (h : Inherited g) (id : Nat) : Inherited { g with children := g.children.map (stop id) } := by
  have hnumbered : Numbered (step (.sessionEnd id) g) := step_numbered _ h.toNumbered
  rw [step_sessionEnd h.noCtx] at hnumbered
  refine { hnumbered with earlier := fun c hc j hj => ?_, stopped := fun c hc hrun => ?_ }
  · rcases mem_map_stop hc with ⟨d, -, -, rfl⟩ | ⟨hc, -⟩
    · cases hj
    · exact h.earlier c hc j hj
  · rcases mem_map_stop hc with ⟨d, -, -, rfl⟩ | ⟨hc, -⟩
    · rfl
    · exact h.stopped c hc hrun

theorem step_inherited (e : Event) (h : Inherited g) : Inherited (step e g) := by
  cases e with
  | sessionEnd id =>
    rw [step_sessionEnd h.noCtx]
    exact stop_inherited h id
  | incoming o =>
    by_cases hin : rejects g = true ∨ o.socketpair = false
    · rw [step, accept_refused hin]
      exact h
    · rw [not_or, Bool.not_eq_true, Bool.not_eq_false] at hin
      refine { accept_numbered h.toNumbered hin.1 hin.2 with
        earlier := fun c hc id hid => ?_, stopped := fun c hc hrun => ?_ }
      · rcases mem_children_accept hin.1 hin.2 hc with hc | ⟨-, rfl⟩
        · exact h.earlier c hc id hid
        · rcases mem_childOf hid with hid | hid | hid | hid
          · exact h.fds _ hid id rfl
          · cases hid
          · cases hid
          · cases hid
      · rcases mem_children_accept hin.1 hin.2 hc with hc | ⟨-, rfl⟩
        · exact h.stopped c hc hrun
        · cases hrun

theorem processStep_inherited (e : ProcessEvent) (h : Inherited p.server) : Inherited (processStep e p).server := by
  cases e with
  | server e =>
    simp only [processStep]
    split
    · exact step_inherited e h
    · cases e with
      | incoming o => exact h
      | sessionEnd id => exact stop_inherited h id
  | parentDies => exact h
  | killSwitch id =>
    simp only [processStep, onParentDead]
    split
    · exact h
    · exact stop_inherited h id

/-- **The kill pipe of the last child.** Nobody who runs has its write end: later children have stopped. -/
theorem not_held_of_mostRecent (h : Inherited p.server) (hdead : p.parentRuns = false) {c : Child}
    (hc : MostRecent p c) : ¬ Held (.pipe1 c.id) p := by
  rintro (⟨hruns, -⟩ | ⟨d, hd, hpipe⟩)
  · rw [hdead] at hruns
    cases hruns
  · have hlt : c.id < d.id := h.earlier d hd c.id hpipe
    have hrun : d.running = true := by
      by_contra hrun
      rw [h.stopped d hd (by simpa using hrun)] at hpipe
      cases hpipe
    exact absurd (hc.last d hd hrun) (not_le.mpr hlt)

theorem exists_mostRecent (h : live p.server ≠ 0) : ∃ c, MostRecent p c := by
  obtain ⟨c, hc, hrun⟩ := List.countP_pos_iff.mp (Nat.pos_of_ne_zero h)
  obtain ⟨m, hm, hmax⟩ := (p.server.children.filter (·.running)).toFinset.exists_max_image Child.id
    ⟨c, by simpa using ⟨hc, hrun⟩⟩
  rw [List.mem_toFinset, List.mem_filter] at hm
  refine ⟨m, hm.1, hm.2, fun d hd hdrun => hmax d ?_⟩
  rw [List.mem_toFinset, List.mem_filter]
  exact ⟨hd, hdrun⟩

/-- The last child exits: fewer run. -/
theorem live_onParentDead {c : Child} (hc : MostRecent p c) (hheld : ¬ Held (.pipe1 c.id) p) :
    live (onParentDead c.id p).server < live p.server := by
  rw [onParentDead, if_neg hheld]
  refine lt_of_le_of_ne (countP_stop_le _ _) fun heq => ?_
  have hstopped := (live_stop _ _).mp heq c hc.mem rfl
  rw [hc.running] at hstopped
  cases hstopped

/-- Without the parent all children can exit, the last first. -/
theorem exists_exits (n : Nat) : ∀ {p : Processes}, Inherited p.server → p.parentRuns = false → live p.server = n →
    ∃ ids : List Nat, Guarded processStep Exits (ids.map .killSwitch) p ∧
      live (run processStep (ids.map .killSwitch) p).server = 0 := by
  induction n using Nat.strong_induction_on with
  | _ n ih =>
    intro p h hdead hn
    by_cases h0 : live p.server = 0
    · exact ⟨[], trivial, h0⟩
    · obtain ⟨c, hc⟩ := exists_mostRecent h0
      have hheld := not_held_of_mostRecent h hdead hc
      have hdead' : (onParentDead c.id p).parentRuns = false := by
        rw [onParentDead, if_neg hheld]
        exact hdead
      obtain ⟨ids, hg, hlive⟩ := ih _ (hn ▸ live_onParentDead hc hheld)
        (processStep_inherited (.killSwitch c.id) h) hdead' rfl
      exact ⟨c.id :: ids, ⟨⟨c, hc, rfl, hheld⟩, hg⟩, hlive⟩

end Kill

/-- **Orphans exit.** In every state with the parent dead, nobody who runs has the write end of the kill pipe of the
child forked last, so it exits; and so all children can exit, one after another. -/
theorem orphans_exit (maxConnections : UInt32) (es : List ProcessEvent)
    (hdead : (reachedProcesses maxConnections es).parentRuns = false) :
    (live (reachedProcesses maxConnections es).server ≠ 0 → ∃ c, MostRecent (reachedProcesses maxConnections es) c) ∧
      (∀ c, MostRecent (reachedProcesses maxConnections es) c →
        ¬ Held (.pipe1 c.id) (reachedProcesses maxConnections es) ∧
          stop c.id c ∈ (onParentDead c.id (reachedProcesses maxConnections es)).server.children) ∧
      ∃ ids : List Nat, Guarded processStep Exits (ids.map .killSwitch) (reachedProcesses maxConnections es) ∧
        live (run processStep (ids.map .killSwitch) (reachedProcesses maxConnections es)).server = 0 := by
  have hinit : Inherited (startProcesses maxConnections).server :=
    { initServerState_numbered maxConnections with
      earlier := fun c hc => (by cases hc), stopped := fun c hc => (by cases hc) }
  have h : Inherited (reachedProcesses maxConnections es).server :=
    run_inv (P := fun p : Processes => Inherited p.server) (fun e p hp => processStep_inherited e hp) es hinit
  generalize reachedProcesses maxConnections es = p at *
  refine ⟨exists_mostRecent, fun c hc => ?_, exists_exits _ h hdead rfl⟩
  have hheld := not_held_of_mostRecent h hdead hc
  refine ⟨hheld, ?_⟩
  rw [onParentDead, if_neg hheld]
  exact List.mem_map_of_mem hc.mem

/-- Two sessions lose their parent: the second has the write end of the first kill pipe, and is the first to exit. -/
theorem two_orphans_exit :
    ∃ ids : List Nat, live (run processStep (ids.map .killSwitch) (reachedProcesses 10
      [.server (.incoming ⟨true, true, true⟩), .server (.incoming ⟨true, true, true⟩), .parentDies])).server = 0 := by
  obtain ⟨ids, -, hlive⟩ := (orphans_exit 10
    [.server (.incoming ⟨true, true, true⟩), .server (.incoming ⟨true, true, true⟩), .parentDies] rfl).2.2
  exact ⟨ids, hlive⟩

end CftpServer.Server
