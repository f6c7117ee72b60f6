import CftpServer.Session.Step
import Mathlib.Logic.Relation

/-!
# What a callback is made of

A `Move` is one small thing the code of a session does: a field of a transfer set, a call, a reply, bytes moved on a
bufferevent, a data connection closed. `Moves` are any number of them. Every function of the session is such a
sequence, but for those that listen, connect, log in or free a listener or a timer: the lemmas below say so for one
function each, and an invariant of moves (`Moves.inv`) is one of all these functions.
-/

namespace CftpServer

open CLib Command

namespace Session

/-- Who the session works for: only PROT, USER and PASS change that. -/
structure Identity where
  root : Bytes
  uid : Nat
  gid : Nat
  groups : List Nat
  username : Bytes
  sourceIp : Bytes
  authenticated : Bool
  dataTlsRequired : Bool

/-- What no move changes. -/
structure Fixed extends Identity where
  listeners : Nat → Bool
  pasvListener : Option Nat
  timeoutEvent : Option Nat

/-- What of a session outlasts a transfer. -/
structure Durable extends Fixed where
  log : List Effect
  bevs : Nat → Option Bev
  timers : Nat → Option Timer
  nextId : Nat
  dataBev : Option Nat

variable {σ : Type} (env : Env σ)

def identity (s : Session σ) : Identity where
  root := s.proc.root
  uid := s.proc.uid
  gid := s.proc.gid
  groups := s.proc.groups
  username := s.conn.username
  sourceIp := s.conn.sourceIp
  authenticated := s.conn.authenticated
  dataTlsRequired := s.conn.dataTlsRequired

def fixed (s : Session σ) : Fixed := ⟨s.identity, s.listeners, s.conn.pasvListener, s.conn.timeoutEvent⟩

def durable (s : Session σ) : Durable := ⟨s.fixed, s.log, s.bevs, s.timers, s.nextId, s.conn.dataBev⟩

/-- Effects without a trace in the tables of the session; calls on paths are in `C`. -/
def Inert (C : Call → Prop) : Effect → Prop
  | .call c => C c
  | .reply statusCode text => ¬ (statusCode = 200 ∧ text = ascii "PROT now Private")
  | .text _ => True
  | .opened _ => True
  | .closed _ => True
  | .rejected _ => True
  | _ => False

/-! ## Loops

What the calls of a loop keep, the loop keeps. -/

section Loops

variable {env} {P : Session σ → Prop}

theorem listEntries_inv (hlstat : ∀ path s, P s → P (sysLstat env path s).2) {path : Bytes}
    {description hidden human : Bool} (names : List Bytes) :
    ∀ s, P s → P (listEntries env path description hidden human names s).2 := by
  induction names with
  | nil => exact fun _ h => h
  | cons name names ih =>
    intro s h
    unfold listEntries
    split
    · exact ih _ h
    · have h₁ := hlstat (cut PATH_MAX (path ++ ascii "/" ++ name)) s h
      dsimp only
      split
      · exact ih _ h₁
      · split
        · exact ih _ h₁
        · exact ih _ h₁

theorem drainInput_inv {b : Nat} (hwrite : ∀ v s, s.bevs b = some v → P s → P (evbufferWrite env b v s))
    (hcrash : ∀ s, P s → P s.crash) (hhang : ∀ s, P s → P s.hang) (fuel : Nat) :
    ∀ s, P s → P (drainInput env b fuel s) := by
  induction fuel with
  | zero => exact hhang
  | succ fuel ih =>
    intro s h
    unfold drainInput
    split
    · exact hcrash s h
    · rename_i v hv
      split
      · exact h
      · exact ih _ (hwrite v s hv h)

section Dele

variable (hlstat : ∀ path s, P s → P (sysLstat env path s).2)
include hlstat

/-- A directory among the names is left to `sub`, anything else is unlinked. -/
theorem deleteEntries_rule {sub : Bytes → Session σ → Bool × Session σ} {path : Bytes} : ∀ {names : List Bytes},
    (∀ name ∈ names, name ≠ ascii "." → name ≠ ascii ".." → ∀ s st, P s →
      env.lstat s.os s.proc (cut PATH_MAX (path ++ ascii "/" ++ name)) = some st →
      P (if st.isDir then sub (cut PATH_MAX (path ++ ascii "/" ++ name))
          (sysLstat env (cut PATH_MAX (path ++ ascii "/" ++ name)) s).2
        else sysUnlink env (cut PATH_MAX (path ++ ascii "/" ++ name))
          (sysLstat env (cut PATH_MAX (path ++ ascii "/" ++ name)) s).2).2) →
    ∀ s, P s → P (deleteEntries env sub path names s).2 := by
  intro names
  induction names with
  | nil => exact fun _ _ h => h
  | cons name names ih =>
    intro hbody s h
    have ih := ih fun name hname => hbody name (List.mem_cons_of_mem _ hname)
    unfold deleteEntries
    split
    · exact ih _ h
    · rename_i hdots
      rw [not_or] at hdots
      have h₁ := hlstat (cut PATH_MAX (path ++ ascii "/" ++ name)) s h
      have hentry := hbody name List.mem_cons_self hdots.1 hdots.2 s
      dsimp only
      split
      · exact ih _ h₁
      · rename_i st hst
        have hentry := hentry st h hst
        split
        · rename_i hdir
          rw [if_pos hdir] at hentry
          split
          · exact ih _ hentry
          · exact hentry
        · rename_i hdir
          rw [if_neg hdir] at hentry
          exact ih _ hentry

variable (hunlink : ∀ path s, P s → P (sysUnlink env path s).2)
include hunlink

theorem deleteEntries_inv {sub : Bytes → Session σ → Bool × Session σ} (hsub : ∀ path s, P s → P (sub path s).2)
    (path : Bytes) (names : List Bytes) : ∀ s, P s → P (deleteEntries env sub path names s).2 := by
  refine deleteEntries_rule hlstat fun name _ _ _ s st h _ => ?_
  split
  · exact hsub _ _ (hlstat _ s h)
  · exact hunlink _ _ (hlstat _ s h)

omit hlstat hunlink in
/-- One directory: its entries, then the directory itself. -/
theorem deleteDirectoryRecursively_rule {depth : Nat} {path : Bytes} {s : Session σ}
    (hopendir : P (sysOpendir env path s).2)
    (hentries : ∀ names, env.opendir s.os s.proc path = some names →
      P (deleteEntries env (deleteDirectoryRecursively env depth) path names (sysOpendir env path s).2).2)
    (hclose : ∀ fd s, P s → P (closeFd env fd s)) (hrmdir : ∀ s, P s → P (sysRmdir env path s).2) :
    P (deleteDirectoryRecursively env (depth + 1) path s).2 := by
  unfold deleteDirectoryRecursively
  dsimp only
  split
  · exact hopendir
  · rename_i fd names hdir
    have hnames : env.opendir s.os s.proc path = some names := by
      unfold sysOpendir at hdir
      split at hdir
      · rename_i names' hnames
        cases hdir
        exact hnames
      · cases hdir
    have h := hentries names hnames
    split
    · exact h
    · split
      · exact hrmdir _ (hclose _ _ h)
      · exact hclose _ _ h

theorem deleteDirectoryRecursively_inv (hopendir : ∀ path s, P s → P (sysOpendir env path s).2)
    (hrmdir : ∀ path s, P s → P (sysRmdir env path s).2) (hclose : ∀ fd s, P s → P (closeFd env fd s))
    (hcrash : ∀ s, P s → P s.crash) (depth : Nat) :
    ∀ path s, P s → P (deleteDirectoryRecursively env depth path s).2 := by
  induction depth with
  | zero => exact fun _ => hcrash
  | succ depth ih =>
    intro path s h
    exact deleteDirectoryRecursively_rule (hopendir path s h)
      (fun names _ => deleteEntries_inv hlstat hunlink ih path names _ (hopendir path s h)) hclose (hrmdir path)

end Dele

end Loops

/-! ## Moves -/

/-- One thing the code does. -/
inductive Move (C : Call → Prop) : Session σ → Session σ → Prop where
  | keep {s s' : Session σ} (h : s'.durable = s.durable) : Move C s s'
  | fresh (s : Session σ) : Move C s s.fresh
  | did {s : Session σ} {e : Effect} (he : Inert C e) : Move C s (emit env e s)
  | bev {s : Session σ} {b : Nat} {v v' : Bev} (hv : s.bevs b = some v) (ht : v'.tls = v.tls) :
      Move C s { s with bevs := Function.update s.bevs b (some v') }
  | wrote {s : Session σ} {b : Nat} {tls : Bool} (bytes : Bytes) (hb : ∃ v, s.bevs b = some v ∧ v.tls = tls) :
      Move C s (emit env (.bevWrite b tls bytes) s)
  | stored {s : Session σ} {b : Nat} {tls : Bool} (fd : Int) (bytes : Bytes)
      (hb : ∃ v, s.bevs b = some v ∧ v.tls = tls) :
      Move C s (emit env (.store b tls fd bytes) s)
  | fired {s : Session σ} {t : Nat} {timer : Timer} (ht : s.timers t = some timer) : Move C s (timerFires t timer s)
  | closed (s : Session σ) : Move C s (closeDataConnection env s)

/-- Any number of moves. -/
def Moves (C : Call → Prop) : Session σ → Session σ → Prop := Relation.ReflTransGen (Move env C)

/-! ## The end of a data connection -/

/-- Descriptors are closed one by one. -/
theorem closeAll_spec (fds : List Int) : ∀ s : Session σ, ∃ d os,
    closeAll env fds s = { s with log := s.log ++ d, os := os } ∧ ∀ e ∈ d, ∃ fd, e = Effect.closed fd := by
  induction fds with
  | nil =>
    intro s
    exact ⟨[], s.os, by simp [closeAll], fun _ he => by cases he⟩
  | cons fd fds ih =>
    intro s
    rw [closeAll, List.foldl_cons, ← closeAll]
    unfold closeFd
    split
    · exact ih s
    · obtain ⟨d, os, heq, hd⟩ := ih (emit env (.closed fd) s)
      refine ⟨.closed fd :: d, os, by rw [heq]; simp [emit], fun e he => ?_⟩
      rcases List.mem_cons.mp he with rfl | he
      · exact ⟨fd, rfl⟩
      · exact hd e he

theorem closeFd_ended (fd : Int) (s : Session σ) : (closeFd env fd s).ended = s.ended := by
  unfold closeFd
  split <;> rfl

/-- The data connection is closed: what its output still has is dropped. -/
theorem closeDataConnection_live {s : Session σ} {b : Nat} {v : Bev} (hb : s.conn.dataBev = some b)
    (hv : s.bevs b = some v) : ∃ d os, closeDataConnection env s =
        { s with
          conn := { resetData s.conn with dataStream := none }
          bevs := Function.update s.bevs b none
          log := s.log ++ .bevFree b v.output :: d
          os := os } ∧
      ∀ e ∈ d, ∃ fd, e = Effect.closed fd := by
  simp only [closeDataConnection, hb, bevFree, hv]
  obtain ⟨d, os, heq, hd⟩ := closeAll_spec env v.files
    (emit env (.bevFree b v.output) { s with bevs := Function.update s.bevs b none })
  refine ⟨d, os, ?_, hd⟩
  rw [heq]
  simp [emit]

/-- Closing a data connection that is gone already. -/
theorem closeDataConnection_gone {s : Session σ} (h : ∀ b, s.conn.dataBev = some b → s.bevs b = none) :
    (closeDataConnection env s).durable = { s.durable with dataBev := none } := by
  unfold closeDataConnection
  split
  · rfl
  · rename_i b hb
    simp only [bevFree, h b hb]
    rfl

/-- Closing it only frees and closes. -/
theorem closeDataConnection_log (s : Session σ) : ∃ d, (closeDataConnection env s).log = s.log ++ d ∧
    ∀ e ∈ d, (∃ b dropped, e = Effect.bevFree b dropped) ∨ ∃ fd, e = Effect.closed fd := by
  by_cases hgone : ∀ b, s.conn.dataBev = some b → s.bevs b = none
  · have hlog := congrArg Durable.log (closeDataConnection_gone env hgone)
    exact ⟨[], by rw [List.append_nil]; exact hlog, List.forall_mem_nil _⟩
  · push Not at hgone
    obtain ⟨b, hb, hv⟩ := hgone
    obtain ⟨v, hv⟩ := Option.ne_none_iff_exists'.mp hv
    obtain ⟨d, os, heq, hd⟩ := closeDataConnection_live env hb hv
    refine ⟨.bevFree b v.output :: d, by rw [heq], fun e he => ?_⟩
    rcases List.mem_cons.mp he with rfl | he
    · exact .inl ⟨b, v.output, rfl⟩
    · exact .inr (hd e he)

/-- Either way the data connection is gone, and what no transfer needs is kept. -/
theorem closeDataConnection_durable (s : Session σ) : ∃ log bevs,
    (closeDataConnection env s).durable = { s.durable with log := log, bevs := bevs, dataBev := none } := by
  by_cases hgone : ∀ b, s.conn.dataBev = some b → s.bevs b = none
  · exact ⟨s.log, s.bevs, closeDataConnection_gone env hgone⟩
  · push Not at hgone
    obtain ⟨b, hb, hv⟩ := hgone
    obtain ⟨v, hv⟩ := Option.ne_none_iff_exists'.mp hv
    obtain ⟨d, os, heq, -⟩ := closeDataConnection_live env hb hv
    rw [heq]
    exact ⟨_, _, rfl⟩

theorem Move.fixed {env : Env σ} {C : Call → Prop} {s s' : Session σ} (h : Move env C s s') : s'.fixed = s.fixed := by
  cases h with
  | keep hk => exact congrArg Durable.toFixed hk
  | closed =>
    obtain ⟨log, bevs, heq⟩ := closeDataConnection_durable env s
    exact congrArg Durable.toFixed heq
  | _ => rfl

/-- Numbers are only ever given out. -/
theorem Move.nextId_le {env : Env σ} {C : Call → Prop} {s s' : Session σ} (h : Move env C s s') :
    s.nextId ≤ s'.nextId := by
  cases h with
  | keep hk => exact le_of_eq (congrArg Durable.nextId hk).symm
  | fresh => exact Nat.le_succ _
  | closed =>
    obtain ⟨log, bevs, heq⟩ := closeDataConnection_durable env s
    exact le_of_eq (congrArg Durable.nextId heq).symm
  | _ => exact le_rfl

namespace Moves

variable {env} {C : Call → Prop} {s₀ s s' : Session σ}

theorem refl : Moves env C s s := Relation.ReflTransGen.refl

theorem trans (h : Moves env C s₀ s) (h' : Moves env C s s') : Moves env C s₀ s' := Relation.ReflTransGen.trans h h'

theorem move (h : Moves env C s₀ s) (h' : Move env C s s') : Moves env C s₀ s' := Relation.ReflTransGen.tail h h'

/-- An invariant of single moves is kept by any number of them. -/
theorem inv {P : Session σ → Prop} (hP : ∀ {s s'}, Move env C s s' → P s → P s') (h : Moves env C s s') (hs : P s) :
    P s' := by
  induction h with
  | refl => exact hs
  | tail _ hm ih => exact hP hm ih

theorem fixed (h : Moves env C s s') : s'.fixed = s.fixed :=
  h.inv (P := fun s' => s'.fixed = s.fixed) (fun hm hs => hm.fixed.trans hs) rfl

theorem nextId_le (h : Moves env C s s') : s.nextId ≤ s'.nextId :=
  h.inv (P := fun s' => s.nextId ≤ s'.nextId) (fun hm hs => hs.trans hm.nextId_le) le_rfl

theorem keep (h : Moves env C s₀ s) (hk : s'.durable = s.durable) : Moves env C s₀ s' := h.move (.keep hk)

theorem did (h : Moves env C s₀ s) {e : Effect} (he : Inert C e) : Moves env C s₀ (emit env e s) := h.move (.did he)

/-! ## The calls handlers are made of -/

theorem andThen (h : Moves env C s₀ s) {f : Session σ → Session σ} (hf : Moves env C s₀ s → Moves env C s₀ (f s)) :
    Moves env C s₀ (s.andThen f) := by
  unfold Session.andThen
  split
  · exact h
  · exact hf h

theorem crash (h : Moves env C s₀ s) : Moves env C s₀ s.crash := h.keep rfl

theorem hang (h : Moves env C s₀ s) : Moves env C s₀ s.hang := h.keep rfl

theorem sendControlMessage (h : Moves env C s₀ s) {n : Nat} {text : Bytes}
    (hp : ¬ (n = 200 ∧ text = ascii "PROT now Private")) : Moves env C s₀ (s.sendControlMessage env n text) :=
  (h.did (e := .reply n text) hp).keep rfl

/-- A reply with another code than that of PROT. -/
theorem replies (h : Moves env C s₀ s) {n : Nat} {text : Bytes} (hn : n ≠ 200) :
    Moves env C s₀ (s.sendControlMessage env n text) := h.sendControlMessage fun hp => hn hp.1

theorem writeTextResponse (h : Moves env C s₀ s) {text : Bytes} : Moves env C s₀ (s.writeTextResponse env text) :=
  (h.did (e := .text text) trivial).keep rfl

theorem setControlWriteCb (h : Moves env C s₀ s) {cb : ControlWriteCb} : Moves env C s₀ (s.setControlWriteCb cb) :=
  h.keep rfl

theorem call (h : Moves env C s₀ s) {c : Call} (hc : C c) : Moves env C s₀ (s.call env c) := h.did hc

theorem sysStat (h : Moves env C s₀ s) {path : Bytes} (hc : C (.stat path)) : Moves env C s₀ (s.sysStat env path).2 :=
  h.call hc

theorem sysLstat (h : Moves env C s₀ s) {path : Bytes} (hc : C (.lstat path)) :
    Moves env C s₀ (s.sysLstat env path).2 :=
  h.call hc

theorem sysUnlink (h : Moves env C s₀ s) {path : Bytes} (hc : C (.unlink path)) :
    Moves env C s₀ (s.sysUnlink env path).2 := h.call hc

theorem sysMkdir (h : Moves env C s₀ s) {path : Bytes} (hc : C (.mkdir path)) :
    Moves env C s₀ (s.sysMkdir env path).2 :=
  h.call hc

theorem sysRmdir (h : Moves env C s₀ s) {path : Bytes} (hc : C (.rmdir path)) :
    Moves env C s₀ (s.sysRmdir env path).2 :=
  h.call hc

theorem newFd (h : Moves env C s₀ s) : Moves env C s₀ (s.newFd env).2 :=
  (h.did (e := .opened s.nextId) trivial).move (.fresh _)

theorem closeFd (h : Moves env C s₀ s) {fd : Int} : Moves env C s₀ (s.closeFd env fd) := by
  unfold Session.closeFd
  split
  · exact h
  · exact h.did (e := .closed fd) trivial

theorem sysChdir (h : Moves env C s₀ s) {path : Bytes} (hc : C (.chdir path)) :
    Moves env C s₀ (s.sysChdir env path).2 := by
  unfold Session.sysChdir
  split
  · exact (h.call hc).keep rfl
  · exact h.call hc

theorem sysOpenRead_call {path : Bytes} : Moves env C (s.call env (.openRead path)) (s.sysOpenRead env path).2 := by
  unfold Session.sysOpenRead
  split
  · exact refl.newFd
  · exact refl

theorem sysOpenWrite_call {path : Bytes} : Moves env C (s.call env (.openWrite path)) (s.sysOpenWrite env path).2 := by
  unfold Session.sysOpenWrite
  split
  · exact refl.newFd
  · exact refl

theorem sysOpendir (h : Moves env C s₀ s) {path : Bytes} (hc : C (.opendir path)) :
    Moves env C s₀ (s.sysOpendir env path).2 := by
  unfold Session.sysOpendir
  split
  · exact (h.call hc).newFd
  · exact h.call hc

theorem bev (h : Moves env C s₀ s) {b : Nat} {v v' : Bev} (hv : s.bevs b = some v) (ht : v'.tls = v.tls) :
    Moves env C s₀ { s with bevs := Function.update s.bevs b (some v') } := h.move (.bev hv ht)

theorem bevWrite (h : Moves env C s₀ s) {b : Nat} {bytes : Bytes} {files : List Int} :
    Moves env C s₀ (s.bevWrite env b bytes files) := by
  unfold Session.bevWrite
  split
  · exact h.crash
  · rename_i v hv
    refine move (h.bev hv ?_) (.wrote bytes ?_)
    · rfl
    · exact ⟨_, Function.update_self .., rfl⟩

theorem setWriteLow (h : Moves env C s₀ s) {b low : Nat} : Moves env C s₀ (s.setWriteLow b low) := by
  unfold Session.setWriteLow
  cases hv : s.bevs b with
  | none => rw [Option.map_none, ← hv, Function.update_eq_self]; exact h
  | some v => exact h.bev hv rfl

theorem closeDataConnection (h : Moves env C s₀ s) : Moves env C s₀ (s.closeDataConnection env) := h.move (.closed s)

end Moves

end Session

end CftpServer
