import CftpServer.Server.Descriptors

/-!
# Children that have exited (`engine/main.c`)

A child that exits stays in the process table until its parent waits for it. SIGCHLD tells the parent, but it is pending
once at most: children that exit while it is pending, or while its handler runs, raise no second one. The handler
therefore waits until nothing is left.

* `parentStep_accounted`: the accounts of one step
* `children_are_reaped`: no exit is missed, no child is waited for twice, and the handler comes to its end
-/

namespace CftpServer.Server

open Runs

/-- The parent with its exited children, those it has waited for, and its signal. -/
structure Parent where
  server : ServerState
  zombies : List Nat
  reaped : List Nat
  pending : Bool
  handling : Bool

inductive ParentEvent where
  | server (e : Event)
  | sigchld
  | waitpid (n : Nat)
deriving DecidableEq, Repr

/-- The server after `setup_sigchld_handler`. -/
def setupSigchldHandler (maxConnections : UInt32) : Parent := ⟨initServerState maxConnections, [], [], false, false⟩

/-- A running child exits. -/
def childExits (id : Nat) (p : Parent) : Parent :=
  if ∃ c ∈ p.server.children, c.id = id ∧ c.running = true then
    { p with server := step (.sessionEnd id) p.server, zombies := p.zombies ++ [id], pending := true }
  else p

/-- One round of the loop of `sigchld_handler`. There may be several children to wait for, and `waitpid` takes any of
them; without one it says so, and the handler returns. -/
def sigchldHandler (n : Nat) (p : Parent) : Parent :=
  match p.zombies[n % p.zombies.length]? with
  | some id => { p with zombies := p.zombies.erase id, reaped := p.reaped ++ [id] }
  | none => { p with handling := false }

/-- While its handler runs the parent does nothing else, and SIGCHLD is blocked; children exit at any time. -/
def parentStep : ParentEvent → Parent → Parent
  | .server (.incoming o), p => if p.handling then p else { p with server := step (.incoming o) p.server }
  | .server (.sessionEnd id), p => childExits id p
  | .sigchld, p => if p.pending && !p.handling then { p with pending := false, handling := true } else p
  | .waitpid n, p => if p.handling then sigchldHandler n p else p

/-- The children that have stopped are those that have exited, each once, and no exit goes unnoticed. -/
structure Accounted (p : Parent) : Prop where
  numbered : Numbered p.server
  ids : (p.server.children.map (·.id)).Nodup
  once : (p.zombies ++ p.reaped).Nodup
  stopped : ∀ id, id ∈ p.zombies ++ p.reaped ↔ ∃ c ∈ p.server.children, c.id = id ∧ c.running = false
  noticed : p.zombies ≠ [] → p.pending = true ∨ p.handling = true

section Step

variable {g : ServerState} {p : Parent}

/-- A connection adds a running child with a new number, or none. -/
theorem step_incoming_children (o : Outcomes) : (step (.incoming o) g).children = g.children ∨
    ∃ c, (step (.incoming o) g).children = g.children ++ [c] ∧ c.running = true ∧ c.id = g.nextId := by
  by_cases hin : rejects g = true ∨ o.socketpair = false
  · exact .inl (congrArg ServerState.children (accept_refused hin))
  · rw [not_or, Bool.not_eq_true, Bool.not_eq_false] at hin
    have hchildren := (accept_spec hin.1 hin.2).2.1
    cases hf : o.fork with
    | false => exact .inl (hchildren.trans (by rw [hf]; rfl))
    | true => exact .inr ⟨_, hchildren.trans (by rw [hf]; rfl), rfl, rfl⟩

theorem incoming_accounted (h : Accounted p) (o : Outcomes) :
    Accounted { p with server := step (.incoming o) p.server } := by
  have hnumbered := step_numbered (.incoming o) h.numbered
  rcases step_incoming_children o with hsame | ⟨c, hnew, hrun, hid⟩
  · exact ⟨hnumbered, by rw [hsame]; exact h.ids, h.once, fun id => by rw [hsame]; exact h.stopped id, h.noticed⟩
  · refine ⟨hnumbered, ?_, h.once, fun id => (h.stopped id).trans ?_, h.noticed⟩
    · rw [hnew, List.map_append, List.nodup_append]
      refine ⟨h.ids, List.nodup_singleton _, fun id hmem id' hid' => ?_⟩
      obtain ⟨d, hd, rfl⟩ := List.mem_map.mp hmem
      rw [List.map_singleton, List.mem_singleton] at hid'
      rw [hid', hid]
      exact (h.numbered.children d hd).ne
    · rw [hnew]
      constructor
      · rintro ⟨d, hd, hdid⟩
        exact ⟨d, List.mem_append_left _ hd, hdid⟩
      · rintro ⟨d, hd, hdid, hstopped⟩
        rcases List.mem_append.mp hd with hd | hd
        · exact ⟨d, hd, hdid, hstopped⟩
        · rw [List.mem_singleton.mp hd, hrun] at hstopped
          cases hstopped

theorem childExits_accounted (h : Accounted p) (id : Nat) : Accounted (childExits id p) := by
  unfold childExits
  split
  · rename_i hrun
    obtain ⟨c, hc, rfl, hrunning⟩ := hrun
    have hnumbered := step_numbered (.sessionEnd c.id) h.numbered
    have hids : (step (.sessionEnd c.id) p.server).children.map (·.id) = p.server.children.map (·.id) := by
      rw [step_sessionEnd h.numbered.noCtx, List.map_map]
      refine List.map_congr_left fun d _ => ?_
      simp only [Function.comp_apply, stop]
      split <;> rfl
    -- the child was running, so it has not been counted yet
    have hnew : c.id ∉ p.zombies ++ p.reaped := by
      intro hmem
      obtain ⟨d, hd, hid, hstopped⟩ := (h.stopped c.id).mp hmem
      rw [List.inj_on_of_nodup_map h.ids hd hc hid, hrunning] at hstopped
      cases hstopped
    refine ⟨hnumbered, by rw [hids]; exact h.ids, ?_, fun id => ?_, fun _ => .inl rfl⟩
    · rw [List.append_assoc, List.singleton_append, List.nodup_middle]
      exact List.nodup_cons.mpr ⟨hnew, h.once⟩
    · have hmem : id ∈ p.zombies ++ [c.id] ++ p.reaped ↔ id = c.id ∨ id ∈ p.zombies ++ p.reaped := by
        simp only [List.mem_append, List.mem_singleton]
        tauto
      rw [hmem, h.stopped, step_sessionEnd h.numbered.noCtx]
      constructor
      · rintro (rfl | ⟨d, hd, hid, hstopped⟩)
        · exact ⟨_, List.mem_map_of_mem hc, by simp [stop], by simp [stop]⟩
        · refine ⟨_, List.mem_map_of_mem hd, ?_, ?_⟩
          · unfold stop
            split
            · exact hid
            · exact hid
          · unfold stop
            split
            · rfl
            · exact hstopped
      · rintro ⟨d, hd, hid, hstopped⟩
        rcases mem_map_stop hd with ⟨d', -, hd', rfl⟩ | ⟨hd, -⟩
        · exact .inl (hid.symm.trans hd')
        · exact .inr ⟨d, hd, hid, hstopped⟩
  · exact h

theorem sigchldHandler_accounted (h : Accounted p) (n : Nat) (hhandling : p.handling = true) :
    Accounted (sigchldHandler n p) := by
  unfold sigchldHandler
  split
  · rename_i id hid
    have hmem : id ∈ p.zombies := List.mem_of_getElem? hid
    have hperm : (p.zombies.erase id ++ (p.reaped ++ [id])).Perm (p.zombies ++ p.reaped) := by
      rw [← List.append_assoc]
      refine List.perm_append_comm.trans ?_
      rw [List.singleton_append, ← List.cons_append]
      exact (List.perm_cons_erase hmem).symm.append_right _
    exact ⟨h.numbered, h.ids, hperm.nodup_iff.mpr h.once, fun id' => hperm.mem_iff.trans (h.stopped id'),
      fun _ => .inr hhandling⟩
  · rename_i hnone
    have hempty : p.zombies = [] := by
      by_contra hne
      have hlt := Nat.mod_lt n (List.length_pos_iff.mpr hne)
      rw [List.getElem?_eq_getElem hlt] at hnone
      cases hnone
    exact ⟨h.numbered, h.ids, h.once, h.stopped, fun hne => absurd hempty hne⟩

/-- **One step.** -/
theorem parentStep_accounted (e : ParentEvent) (h : Accounted p) : Accounted (parentStep e p) := by
  cases e with
  | server e =>
    cases e with
    | incoming o =>
      simp only [parentStep]
      split
      · exact h
      · exact incoming_accounted h o
    | sessionEnd id => exact childExits_accounted h id
  | sigchld =>
    simp only [parentStep]
    split
    · exact ⟨h.numbered, h.ids, h.once, h.stopped, fun _ => .inr rfl⟩
    · exact h
  | waitpid n =>
    simp only [parentStep]
    split
    · rename_i hhandling
      exact sigchldHandler_accounted h n hhandling
    · exact h

/-! ## The handler comes to its end -/

/-- The rounds of the loop do nothing after it. -/
theorem run_waits_of_returned (ns : List Nat) (hreturned : p.handling = false) :
    run parentStep (ns.map .waitpid) p = p := by
  induction ns with
  | nil => rfl
  | cons n ns ih =>
    have hstep : parentStep (.waitpid n) p = p := if_neg (by rw [hreturned]; exact Bool.false_ne_true)
    rw [List.map_cons, run_cons, hstep, ih]

/-- A handler that is not disturbed waits for every child that has exited, and then returns. -/
theorem run_waits (ns : List Nat) : ∀ {p : Parent}, p.handling = true → p.zombies.length < ns.length →
    (run parentStep (ns.map .waitpid) p).zombies = [] ∧ (run parentStep (ns.map .waitpid) p).handling = false ∧
      (run parentStep (ns.map .waitpid) p).server = p.server := by
  induction ns with
  | nil => intro p _ hlt; exact absurd hlt (Nat.not_lt_zero _)
  | cons n ns ih =>
    intro p hhandling hlt
    have hstep : parentStep (.waitpid n) p = sigchldHandler n p := if_pos hhandling
    rw [List.map_cons, run_cons, hstep, sigchldHandler]
    cases hid : p.zombies[n % p.zombies.length]? with
    | some id =>
      have hmem : id ∈ p.zombies := List.mem_of_getElem? hid
      have hlen : (p.zombies.erase id).length < ns.length := by
        have := List.length_pos_of_mem hmem
        rw [List.length_erase_of_mem hmem]
        rw [List.length_cons] at hlt
        omega
      exact ih (p := { p with zombies := p.zombies.erase id, reaped := p.reaped ++ [id] }) hhandling hlen
    | none =>
      have hempty : p.zombies = [] := by
        by_contra hne
        have hin := Nat.mod_lt n (List.length_pos_iff.mpr hne)
        rw [List.getElem?_eq_getElem hin] at hid
        cases hid
      rw [run_waits_of_returned ns rfl]
      exact ⟨hempty, rfl, rfl⟩

end Step

theorem setupSigchldHandler_accounted (maxConnections : UInt32) : Accounted (setupSigchldHandler maxConnections) where
  numbered := initServerState_numbered maxConnections
  ids := List.nodup_nil
  once := List.nodup_nil
  stopped _ := ⟨fun h => (by cases h), fun ⟨_, hc, _⟩ => (by cases hc)⟩
  noticed h := absurd rfl h

/-- **Children are reaped.** In every state of a run, wherever children exit, the signal comes and the rounds of its
handler stand: the children that have stopped are those that have exited, and each of them is waited for once or not
yet; if the signal is neither pending nor handled, all are. And from every state, the signal and as many rounds as
there are children to wait for, and one, leave none, with the handler back. -/
theorem children_are_reaped (maxConnections : UInt32) (es : List ParentEvent) (p : Parent)
    (hp : p = run parentStep es (setupSigchldHandler maxConnections)) (ns : List Nat)
    (hns : p.zombies.length < ns.length) :
    (p.zombies ++ p.reaped).Nodup ∧
      (∀ id, id ∈ p.zombies ++ p.reaped ↔ ∃ c ∈ p.server.children, c.id = id ∧ c.running = false) ∧
      (p.pending = false → p.handling = false → p.zombies = []) ∧
      (run parentStep (.sigchld :: ns.map .waitpid) p).zombies = [] ∧
      (run parentStep (.sigchld :: ns.map .waitpid) p).handling = false ∧
      ∀ c ∈ p.server.children, c.running = false → c.id ∈ (run parentStep (.sigchld :: ns.map .waitpid) p).reaped := by
  have h : Accounted p := hp ▸ run_inv (fun e _ h => parentStep_accounted e h) es
    (setupSigchldHandler_accounted maxConnections)
  have hquiet : p.pending = false → p.handling = false → p.zombies = [] := by
    intro hpending hhandling
    by_contra hne
    rcases h.noticed hne with hyes | hyes
    · rw [hpending] at hyes
      cases hyes
    · rw [hhandling] at hyes
      cases hyes
  obtain ⟨hzombies, hback, hserver⟩ : (run parentStep (.sigchld :: ns.map .waitpid) p).zombies = [] ∧
      (run parentStep (.sigchld :: ns.map .waitpid) p).handling = false ∧
      (run parentStep (.sigchld :: ns.map .waitpid) p).server = p.server := by
    rw [run_cons, parentStep]
    cases hhandling : p.handling with
    | true =>
      rw [if_neg (by simp)]
      exact run_waits ns hhandling hns
    | false =>
      cases hpending : p.pending with
      | true => exact run_waits ns (p := { p with pending := false, handling := true }) rfl hns
      | false =>
        rw [if_neg (by simp), run_waits_of_returned ns hhandling]
        exact ⟨hquiet hpending hhandling, hhandling, rfl⟩
  refine ⟨h.once, h.stopped, hquiet, hzombies, hback, fun c hc hstopped => ?_⟩
  have hafter : Accounted (run parentStep (.sigchld :: ns.map .waitpid) p) :=
    run_inv (fun e _ h => parentStep_accounted e h) _ h
  have hmem := (hafter.stopped c.id).mpr ⟨c, by rw [hserver]; exact hc, rfl, hstopped⟩
  rwa [hzombies, List.nil_append] at hmem

/-- Two children exit before the signal is handled, and one while it is. -/
def threeExits : List ParentEvent :=
  [.server (.incoming ⟨true, true, true⟩), .server (.incoming ⟨true, true, true⟩),
    .server (.incoming ⟨true, true, true⟩), .server (.sessionEnd 1), .server (.sessionEnd 0), .sigchld, .waitpid 0,
    .server (.sessionEnd 2), .waitpid 1]

/-- The child that is left is waited for in the same loop. -/
theorem three_children_reaped : [0, 1, 2] ⊆ (run parentStep (.sigchld :: [5, 0].map .waitpid)
    (run parentStep threeExits (setupSigchldHandler 10))).reaped := by
  obtain ⟨-, -, -, -, -, hall⟩ := children_are_reaped 10 threeExits _ rfl [5, 0] (by decide)
  have hstopped : ∀ c ∈ [0, 1, 2], ∃ d ∈ (run parentStep threeExits (setupSigchldHandler 10)).server.children,
      d.id = c ∧ d.running = false := by decide
  intro c hc
  obtain ⟨d, hd, rfl, hrun⟩ := hstopped c hc
  exact hall d hd hrun

end CftpServer.Server
